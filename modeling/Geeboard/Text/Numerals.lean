/-
This file is about numbers as text: a number written in a base and padded to a
width, the reading of an octal field, and the reading of a text as a number of
double precision, of which only the whole ones are kept. Each reading gives back
the number that was written, as long as the number fits.
-/

import Geeboard.Text.Lines
import Geeboard.Text.Utf8
import Mathlib.Data.Nat.Log
import Mathlib.Tactic.Positivity

namespace Text

open List Option

/-! ### Numbers written -/

/-- A whole number in a base. -/
def inBase (base : Nat) (value : Int) : List Char :=
  if value < 0 then '-' :: Nat.toDigits base value.natAbs else Nat.toDigits base value.natAbs

/-- A text filled up with zeros in front, to a width. -/
def padStart (width : Nat) (text : List Char) : List Char :=
  List.replicate (width - text.length) '0' ++ text

theorem length_padStart (width : Nat) (text : List Char) :
    (padStart width text).length = max width text.length := by
  unfold padStart
  rw [length_append, length_replicate]
  omega

/-! ### Numbers read -/

/-- Whether a character is an octal digit. -/
def isOctal (char : Char) : Bool :=
  '0' ≤ char && char ≤ '7'

/-- The number of the octal digits a text begins with, and zero where it begins with
none. -/
def octalDigits (text : List Char) : Nat :=
  Nat.ofDigitChars 8 (text.takeWhile isOctal) 0

/-- What a text is read as in base eight, with zero for what is no number. -/
def parseOctal (text : List Char) : Int :=
  match text.dropWhile isSpace with
  | '-' :: digits => -octalDigits digits
  | '+' :: digits => octalDigits digits
  | digits => octalDigits digits

/-- A quotient rounded to the nearest whole number, to the even one in the middle. -/
def roundToEven (numerator denominator : Nat) : Nat :=
  let floor := numerator / denominator
  let twice := 2 * (numerator % denominator)
  if denominator < twice || (twice = denominator && floor % 2 = 1) then floor + 1 else floor

/-- The double nearest to a quotient, if it is a whole number and not infinite: from one on
it has 53 bits, and below one only nought and one are whole. -/
def wholeDouble (numerator denominator : Nat) : Option Nat :=
  if numerator < denominator then
    if numerator * 2 ^ 1075 ≤ denominator then some 0
    else if denominator * (2 ^ 54 - 1) ≤ numerator * 2 ^ 54 then some 1
    else none
  else
    let bits := Nat.log2 (numerator / denominator)
    if bits ≤ 52 then
      let scaled := roundToEven (numerator * 2 ^ (52 - bits)) denominator
      if scaled % 2 ^ (52 - bits) = 0 then some (scaled / 2 ^ (52 - bits)) else none
    else
      let whole := roundToEven numerator (denominator * 2 ^ (bits - 52)) * 2 ^ (bits - 52)
      if whole < 2 ^ 1024 then some whole else none

/-- What a run of decimal digits stands for. -/
def decimal (digits : List Char) : Nat :=
  Nat.ofDigitChars 10 digits 0

/-- The exponent a decimal number ends with: none where the text is no exponent. -/
def exponent : List Char → Option Int
  | [] => some 0
  | mark :: rest =>
    if mark = 'e' ∨ mark = 'E' then
      match rest with
      | '-' :: digits => if digits ≠ [] ∧ digits.all Char.isDigit then some (-decimal digits) else none
      | '+' :: digits => if digits ≠ [] ∧ digits.all Char.isDigit then some (decimal digits) else none
      | digits => if digits ≠ [] ∧ digits.all Char.isDigit then some (decimal digits) else none
    else none

/-- A quotient times a power of ten, as a double, if that is whole. -/
def scaledDouble (digits : Nat) (scale : Int) : Option Nat :=
  if 0 ≤ scale then wholeDouble (digits * 10 ^ scale.toNat) 1
  else wholeDouble digits (10 ^ scale.natAbs)

/-- A decimal number without its sign, if it is one and its double is whole. -/
def unsignedNumber (text : List Char) : Option Nat :=
  let whole := text.takeWhile Char.isDigit
  match text.dropWhile Char.isDigit with
  | '.' :: rest =>
    let fraction := rest.takeWhile Char.isDigit
    if whole = [] ∧ fraction = [] then none
    else do
      let power ← exponent (rest.dropWhile Char.isDigit)
      scaledDouble (decimal (whole ++ fraction)) (power - fraction.length)
  | rest =>
    if whole = [] then none
    else do
      let power ← exponent rest
      scaledDouble (decimal whole) power

/-- What a digit of a base up to sixteen stands for. -/
def digitValue (char : Char) : Nat :=
  if char.isDigit then char.toNat - '0'.toNat
  else if 'a' ≤ char ∧ char ≤ 'f' then char.toNat - 'a'.toNat + 10
  else if 'A' ≤ char ∧ char ≤ 'F' then char.toNat - 'A'.toNat + 10
  else 16

/-- A number written in a base with a mark in front of it. -/
def markedNumber (base : Nat) (digits : List Char) : Option Nat :=
  if digits ≠ [] ∧ digits.all (fun char => digitValue char < base) then
    wholeDouble (digits.foldl (fun sofar char => base * sofar + digitValue char) 0) 1
  else none

/-- The number an ASCII text is read as, if it is whole. -/
def wholeNumber (text : List Char) : Option Int :=
  match trimmed text with
  | [] => some 0
  | '-' :: rest => (unsignedNumber rest).map fun whole => -(whole : Int)
  | '+' :: rest => (unsignedNumber rest).map Int.ofNat
  | '0' :: mark :: rest =>
    if mark = 'x' ∨ mark = 'X' then (markedNumber 16 rest).map Int.ofNat
    else if mark = 'o' ∨ mark = 'O' then (markedNumber 8 rest).map Int.ofNat
    else if mark = 'b' ∨ mark = 'B' then (markedNumber 2 rest).map Int.ofNat
    else (unsignedNumber ('0' :: mark :: rest)).map Int.ofNat
  | digits => (unsignedNumber digits).map Int.ofNat

/-! ### What is written is read back -/

theorem not_isSpace_of_isDigit (char : Char) (digit : char.isDigit) : isSpace char = false := by
  rw [Bool.eq_false_iff]
  intro blank
  simp only [Char.isDigit, Bool.and_eq_true, decide_eq_true_eq] at digit
  simp only [isSpace, Bool.or_eq_true, Bool.and_eq_true, decide_eq_true_eq, beq_iff_eq] at blank
  have low : 48 ≤ char.toNat := digit.1
  have high : char.toNat ≤ 57 := digit.2
  omega

theorem dropWhile_isSpace (text : List Char) (digits : ∀ char ∈ text, char.isDigit) :
    text.dropWhile isSpace = text := by
  cases text with
  | nil => rfl
  | cons char text =>
    have solid := not_isSpace_of_isDigit char (digits char mem_cons_self)
    rw [dropWhile_cons, solid]
    rfl

theorem trimmed_digits (text : List Char) (digits : ∀ char ∈ text, char.isDigit) :
    trimmed text = text :=
  trimmed_of_solid fun char member => not_isSpace_of_isDigit char (digits char member)

theorem isDigit_padStart (width base value : Nat) (positive : 0 < base) (small : base ≤ 10) :
    ∀ char ∈ padStart width (Nat.toDigits base value), char.isDigit := by
  intro char member
  obtain zero | digit := mem_append.mp member
  · rw [eq_of_mem_replicate zero]
    rfl
  · exact Nat.isDigit_of_mem_toDigits positive small digit

theorem isOctal_digitChar (value : Nat) (small : value < 8) : isOctal value.digitChar := by
  have each : ∀ digit : Fin 8, isOctal (Nat.digitChar digit) := by decide
  exact each ⟨value, small⟩

theorem isOctal_toDigits (value : Nat) : ∀ char ∈ Nat.toDigits 8 value, isOctal char := by
  induction value using Nat.strongRecOn with
  | ind value inductionHypothesis =>
    rw [Nat.toDigits_eq_if (by decide)]
    intro char member
    split at member
    · next small =>
      rw [mem_singleton.mp member]
      exact isOctal_digitChar value small
    · next large =>
      obtain front | last := mem_append.mp member
      · exact inductionHypothesis (value / 8) (by omega) char front
      · rw [mem_singleton.mp last]
        exact isOctal_digitChar _ (Nat.mod_lt _ (by decide))

theorem isOctal_padStart (width value : Nat) :
    ∀ char ∈ padStart width (Nat.toDigits 8 value), isOctal char := by
  intro char member
  obtain zero | digit := mem_append.mp member
  · rw [eq_of_mem_replicate zero]
    rfl
  · exact isOctal_toDigits value char digit

theorem ofDigitChars_padStart (width base value : Nat) (large : 1 < base) (small : base ≤ 10) :
    Nat.ofDigitChars base (padStart width (Nat.toDigits base value)) 0 = value := by
  unfold padStart
  rw [Nat.ofDigitChars_append, Nat.ofDigitChars_replicate_zero, Nat.mul_zero,
    Nat.ofDigitChars_toDigits large small]

/-- A text of octal digits is read as their number. -/
theorem parseOctal_digits (text : List Char) (digits : ∀ char ∈ text, char.isDigit)
    (octal : ∀ char ∈ text, isOctal char) :
    parseOctal text = (Nat.ofDigitChars 8 text 0 : Nat) := by
  have read : octalDigits text = Nat.ofDigitChars 8 text 0 := by
    unfold octalDigits
    rw [takeWhile_eq_self_iff.mpr octal]
  unfold parseOctal
  rw [dropWhile_isSpace _ digits]
  split
  · next minus rest =>
    exact absurd (digits '-' mem_cons_self) (by decide)
  · next plus rest =>
    exact absurd (digits '+' mem_cons_self) (by decide)
  · rw [read]

/-- A padded octal number is read back. -/
theorem parseOctal_padStart (width value : Nat) :
    parseOctal (padStart width (Nat.toDigits 8 value)) = value := by
  rw [parseOctal_digits _ (isDigit_padStart width 8 value (by decide) (by decide))
    (isOctal_padStart width value), ofDigitChars_padStart width 8 value (by decide) (by decide)]

theorem ofDigitChars_lt (text : List Char) (start bound : Nat)
    (octal : ∀ char ∈ text, isOctal char) (within : start < bound) :
    Nat.ofDigitChars 8 text start < 8 ^ text.length * bound := by
  induction text generalizing start bound with
  | nil =>
    rw [Nat.ofDigitChars_nil, length_nil, Nat.pow_zero, Nat.one_mul]
    exact within
  | cons char text inductionHypothesis =>
    have digit : char.toNat - '0'.toNat < 8 := by
      have small := octal char mem_cons_self
      simp only [isOctal, Bool.and_eq_true, decide_eq_true_eq] at small
      have upper : char.toNat ≤ '7'.toNat := UInt32.le_iff_toNat_le.mp small.2
      have seven : '7'.toNat = 55 := rfl
      have nought : '0'.toNat = 48 := rfl
      omega
    have rest := inductionHypothesis (8 * start + (char.toNat - '0'.toNat)) (8 * bound)
      (fun later member => octal later (mem_cons_of_mem _ member)) (by omega)
    rw [Nat.ofDigitChars_cons, length_cons, Nat.pow_succ, Nat.mul_assoc]
    exact rest

/-- The first octal digits of a number that has more of them stand for a large number. -/
theorem le_ofDigitChars_take (value count : Nat)
    (least : 8 ^ count ≤ value) :
    8 ^ count ≤ Nat.ofDigitChars 8 ((Nat.toDigits 8 value).take (count + 1)) 0 := by
  have whole : Nat.ofDigitChars 8 (Nat.toDigits 8 value) 0 = value :=
    Nat.ofDigitChars_toDigits (by decide) (by decide)
  have positive : 0 < value := lt_of_lt_of_le (Nat.pow_pos (by decide)) least
  have more : count + 1 ≤ (Nat.toDigits 8 value).length := by
    by_contra few
    by_cases none' : count = 0
    · exact few (by rw [none']; exact Nat.length_toDigits_pos)
    · exact absurd ((Nat.length_toDigits_le_iff (by decide) (Nat.pos_of_ne_zero none')).mp
        (show (Nat.toDigits 8 value).length ≤ count by omega)) (Nat.not_lt.mpr least)
  have large : 8 ^ ((Nat.toDigits 8 value).length - 1) ≤ value := by
    by_contra small
    by_cases single : (Nat.toDigits 8 value).length - 1 = 0
    · rw [single, Nat.pow_zero] at small
      exact small positive
    · have shorter := (Nat.length_toDigits_le_iff (by decide) (Nat.pos_of_ne_zero single)).mpr
        (Nat.lt_of_not_le small)
      omega
  have behind := ofDigitChars_lt ((Nat.toDigits 8 value).drop (count + 1))
    (Nat.ofDigitChars 8 ((Nat.toDigits 8 value).take (count + 1)) 0)
    (Nat.ofDigitChars 8 ((Nat.toDigits 8 value).take (count + 1)) 0 + 1)
    (fun char member => isOctal_toDigits value char (mem_of_mem_drop member))
    (Nat.lt_succ_self _)
  rw [← Nat.ofDigitChars_append, take_append_drop, whole, length_drop] at behind
  have split : (Nat.toDigits 8 value).length - 1 =
      ((Nat.toDigits 8 value).length - (count + 1)) + count := by omega
  rw [split, Nat.pow_add] at large
  have less := Nat.lt_of_mul_lt_mul_left (lt_of_le_of_lt large behind)
  omega

/-- A number read from so many octal digits is below that power of eight. -/
theorem octalDigits_lt (text : List Char) : octalDigits text < 8 ^ text.length := by
  unfold octalDigits
  have bound := ofDigitChars_lt (text.takeWhile isOctal) 0 1
    (fun char member => mem_takeWhile_imp member) (by decide)
  rw [Nat.mul_one] at bound
  exact lt_of_lt_of_le bound
    (Nat.pow_le_pow_right (by decide) (List.takeWhile_prefix isOctal).length_le)

theorem parseOctal_lt (text : List Char) : parseOctal text < 8 ^ text.length := by
  have shorter : (text.dropWhile isSpace).length ≤ text.length :=
    (dropWhile_suffix isSpace).length_le
  have whole : ∀ digits : List Char, digits.length ≤ text.length →
      (octalDigits digits : Int) < 8 ^ text.length := by
    intro digits short
    have bound := lt_of_lt_of_le (octalDigits_lt digits)
      (Nat.pow_le_pow_right (show 0 < 8 by decide) short)
    exact_mod_cast bound
  unfold parseOctal
  split
  · next digits split =>
    have positive : (0 : Int) < 8 ^ text.length := by positivity
    omega
  · next digits split =>
    rw [split, length_cons] at shorter
    exact whole digits (by omega)
  · exact whole _ shorter

theorem roundToEven_one (value : Nat) : roundToEven value 1 = value := by
  unfold roundToEven
  simp only [Nat.div_one, Nat.mod_one]
  rfl

/-- A whole number below the fifty-third power of two is a double. -/
theorem wholeDouble_of_small (value : Nat) (small : value < 2 ^ 53) :
    wholeDouble value 1 = some value := by
  unfold wholeDouble
  split
  · next zero =>
    have nought : value = 0 := by omega
    rw [nought, if_pos]
    rw [Nat.zero_mul]
    exact Nat.zero_le 1
  · next positive =>
    have bits : Nat.log2 value ≤ 52 := by
      have below := (Nat.log2_lt (by omega)).mpr small
      omega
    simp only [Nat.div_one]
    rw [if_pos bits, roundToEven_one, Nat.mul_mod_left, if_pos rfl,
      Nat.mul_div_cancel _ (by positivity)]

theorem le_roundToEven (numerator denominator : Nat) :
    numerator / denominator ≤ roundToEven numerator denominator := by
  unfold roundToEven
  dsimp only
  split
  · exact Nat.le_succ _
  · exact Nat.le_refl _

/-- A double that is small enough is the number it was read from. -/
theorem eq_of_wholeDouble (value result : Nat) (read : wholeDouble value 1 = some result)
    (small : result < 2 ^ 52) : result = value := by
  by_cases exact_ : value < 2 ^ 53
  · rw [wholeDouble_of_small value exact_] at read
    exact (some.inj read).symm
  · have bits : 53 ≤ Nat.log2 value := (Nat.le_log2 (by omega)).mpr (Nat.le_of_not_lt exact_)
    have whole : 2 ^ 52 ≤ value / 2 ^ (Nat.log2 value - 52) := by
      rw [Nat.le_div_iff_mul_le (by positivity), ← Nat.pow_add, Nat.add_sub_cancel' (by omega)]
      exact Nat.log2_self_le (by omega)
    unfold wholeDouble at read
    rw [if_neg (by omega)] at read
    simp only [Nat.div_one, Nat.one_mul] at read
    rw [if_neg (by omega)] at read
    split at read
    · have kept := whole.trans (le_roundToEven value (2 ^ (Nat.log2 value - 52)))
      have positive : 0 < 2 ^ (Nat.log2 value - 52) := by positivity
      have grown := Nat.le_mul_of_pos_right
        (roundToEven value (2 ^ (Nat.log2 value - 52))) positive
      have same := some.inj read
      omega
    · cases read

/-- The double of a number of more than 53 bits, which are as many as it keeps. -/
theorem wholeDouble_of_large (value : Nat) (large : 2 ^ 53 ≤ value) :
    wholeDouble value 1 =
      if roundToEven value (2 ^ (Nat.log2 value - 52)) * 2 ^ (Nat.log2 value - 52) < 2 ^ 1024 then
        some (roundToEven value (2 ^ (Nat.log2 value - 52)) * 2 ^ (Nat.log2 value - 52))
      else none := by
  have bits : 53 ≤ Nat.log2 value := (Nat.le_log2 (by omega)).mpr large
  unfold wholeDouble
  rw [if_neg (by omega)]
  simp only [Nat.div_one, Nat.one_mul]
  rw [if_neg (by omega)]

theorem roundToEven_le (numerator denominator : Nat) :
    roundToEven numerator denominator ≤ numerator / denominator + 1 := by
  unfold roundToEven
  dsimp only
  split
  · exact Nat.le_refl _
  · exact Nat.le_succ _

/-- The numbers no double is near to: those from the middle on between the largest double and
the power of two after it. -/
theorem wholeDouble_eq_none_iff (value : Nat) :
    wholeDouble value 1 = none ↔ 2 ^ 1024 - 2 ^ 970 ≤ value := by
  have full : (2 : Nat) ^ 1024 = 2 ^ 54 * 2 ^ 970 := by rw [← Nat.pow_add]
  have below : (2 : Nat) ^ 1023 = 2 ^ 53 * 2 ^ 970 := by rw [← Nat.pow_add]
  have unit : (2 : Nat) ^ 971 = 2 ^ 1 * 2 ^ 970 := by rw [← Nat.pow_add]
  have some_ : 0 < (2 : Nat) ^ 970 := by positivity
  by_cases small : value < 2 ^ 53
  · rw [wholeDouble_of_small value small]
    refine iff_of_false (some_ne_none _) ?_
    rw [full]
    omega
  have nonzero : value ≠ 0 := by omega
  have least : 2 ^ Nat.log2 value ≤ value := Nat.log2_self_le nonzero
  have most : value < 2 ^ (Nat.log2 value + 1) := Nat.lt_log2_self
  have bits : 53 ≤ Nat.log2 value := (Nat.le_log2 nonzero).mpr (Nat.le_of_not_lt small)
  have none_ (bound : Nat) : (if bound < 2 ^ 1024 then some bound else none) = none ↔
      2 ^ 1024 ≤ bound := by
    split
    · next under => exact iff_of_false (some_ne_none _) (Nat.not_le_of_lt under)
    · next above => exact iff_of_true rfl (Nat.le_of_not_lt above)
  rw [wholeDouble_of_large value (Nat.le_of_not_lt small), none_]
  have first : 2 ^ Nat.log2 value = 2 ^ 52 * 2 ^ (Nat.log2 value - 52) := by
    rw [← Nat.pow_add, Nat.add_sub_cancel' (by omega)]
  have positive : 0 < 2 ^ (Nat.log2 value - 52) := Nat.pow_pos (by decide)
  have low : 2 ^ 52 ≤ value / 2 ^ (Nat.log2 value - 52) := by
    rw [Nat.le_div_iff_mul_le positive, ← first]
    exact least
  have high : value / 2 ^ (Nat.log2 value - 52) < 2 ^ 53 := by
    rw [Nat.div_lt_iff_lt_mul positive]
    rw [Nat.pow_succ, first] at most
    omega
  have rounds := le_roundToEven value (2 ^ (Nat.log2 value - 52))
  have roundsUp := roundToEven_le value (2 ^ (Nat.log2 value - 52))
  rcases Nat.lt_trichotomy (Nat.log2 value) 1023 with fewer | exactly | more
  · have power := Nat.pow_le_pow_right Nat.two_pos (Nat.succ_le_of_lt fewer)
    have product := Nat.mul_le_mul_right (2 ^ (Nat.log2 value - 52)) (roundsUp.trans high)
    rw [Nat.pow_succ, first] at power
    rw [Nat.pow_succ, first] at most
    rw [full]
    exact iff_of_false (by omega) (by omega)
  · have parts := Nat.div_add_mod value (2 ^ 971)
    have rest := Nat.mod_lt value (show 0 < 2 ^ 971 by rw [unit]; omega)
    have same : Nat.log2 value - 52 = 971 := by omega
    rw [same] at high low ⊢
    rw [same] at rounds roundsUp
    -- only the last quotient below the power rounds up to it, and it is odd
    by_cases top : value / 2 ^ 971 + 1 = 2 ^ 53
    · have odd : value / 2 ^ 971 % 2 = 1 := by omega
      have up : roundToEven value (2 ^ 971) =
          if 2 ^ 970 ≤ value % 2 ^ 971 then 2 ^ 53 else 2 ^ 53 - 1 := by
        unfold roundToEven
        dsimp only
        rw [odd, show value / 2 ^ 971 = 2 ^ 53 - 1 by omega]
        refine if_congr ?_ rfl rfl
        simp only [decide_true, Bool.and_true, Bool.or_eq_true, decide_eq_true_eq]
        omega
      rw [up]
      rw [show value / 2 ^ 971 = 2 ^ 53 - 1 by omega] at parts
      split
      · exact iff_of_true (by omega) (by omega)
      · exact iff_of_false (by omega) (by omega)
    · have product := Nat.mul_le_mul_right (2 ^ 971)
        (roundsUp.trans (show value / 2 ^ 971 + 1 ≤ 2 ^ 53 - 1 by omega))
      have under := Nat.mul_le_mul_left (2 ^ 971)
        (show value / 2 ^ 971 + 1 ≤ 2 ^ 53 - 1 by omega)
      rw [Nat.mul_add] at under
      exact iff_of_false (by omega) (by omega)
  · have power := Nat.pow_le_pow_right Nat.two_pos (Nat.succ_le_of_lt more)
    rw [show Nat.succ 1023 = 1024 from rfl] at power
    have product := Nat.mul_le_mul_right (2 ^ (Nat.log2 value - 52)) (low.trans rounds)
    rw [← first] at product
    exact iff_of_true (Nat.le_trans power product) (by omega)

theorem roundToEven_mono {first second : Nat} (denominator : Nat) (less : first ≤ second) :
    roundToEven first denominator ≤ roundToEven second denominator := by
  have floors := @Nat.div_le_div_right first second denominator less
  by_cases same : first / denominator = second / denominator
  · have parts := Nat.div_add_mod first denominator
    have parts' := Nat.div_add_mod second denominator
    rw [same] at parts
    unfold roundToEven
    dsimp only
    rw [same]
    split
    · next up =>
      rw [if_pos]
      simp only [Bool.or_eq_true, Bool.and_eq_true, decide_eq_true_eq] at up ⊢
      omega
    · split
      · exact Nat.le_succ _
      · exact Nat.le_refl _
  · have up := roundToEven_le first denominator
    have down := le_roundToEven second denominator
    omega

/-- The double of a large number lies between the powers of two around the number. -/
theorem wholeDouble_bounds {value double : Nat} (large : 2 ^ 53 ≤ value)
    (read : wholeDouble value 1 = some double) :
    2 ^ Nat.log2 value ≤ double ∧ double ≤ 2 ^ (Nat.log2 value + 1) := by
  have nonzero : value ≠ 0 := by omega
  have bits : 53 ≤ Nat.log2 value := (Nat.le_log2 nonzero).mpr large
  have first : 2 ^ Nat.log2 value = 2 ^ 52 * 2 ^ (Nat.log2 value - 52) := by
    rw [← Nat.pow_add, Nat.add_sub_cancel' (by omega)]
  have next_ : 2 ^ (Nat.log2 value + 1) = 2 ^ 53 * 2 ^ (Nat.log2 value - 52) := by
    rw [Nat.pow_succ, first]
    omega
  have positive : 0 < 2 ^ (Nat.log2 value - 52) := by positivity
  have low : 2 ^ 52 ≤ value / 2 ^ (Nat.log2 value - 52) := by
    rw [Nat.le_div_iff_mul_le positive, ← first]
    exact Nat.log2_self_le nonzero
  have high : value / 2 ^ (Nat.log2 value - 52) < 2 ^ 53 := by
    rw [Nat.div_lt_iff_lt_mul positive, ← next_]
    exact Nat.lt_log2_self
  rw [wholeDouble_of_large value large] at read
  split at read
  · obtain rfl := some.inj read
    rw [first, next_]
    exact ⟨Nat.mul_le_mul_right _ (low.trans (le_roundToEven _ _)),
      Nat.mul_le_mul_right _ ((roundToEven_le _ _).trans high)⟩
  · cases read

/-- Larger numbers have doubles that are no smaller. -/
theorem wholeDouble_mono {first second double : Nat} (less : first ≤ second)
    (read : wholeDouble second 1 = some double) :
    ∃ smaller, wholeDouble first 1 = some smaller ∧ smaller ≤ double := by
  have finite : ¬ 2 ^ 1024 - 2 ^ 970 ≤ first := by
    intro none_
    rw [(wholeDouble_eq_none_iff second).mpr (none_.trans less)] at read
    cases read
  obtain ⟨smaller, read'⟩ :=
    ne_none_iff_exists'.mp fun none_ => finite ((wholeDouble_eq_none_iff first).mp none_)
  refine ⟨smaller, read', ?_⟩
  by_cases small : second < 2 ^ 53
  · rw [wholeDouble_of_small second small] at read
    rw [wholeDouble_of_small first (by omega)] at read'
    have one := some.inj read
    have other := some.inj read'
    omega
  have large : 2 ^ 53 ≤ second := Nat.le_of_not_lt small
  have bounds := wholeDouble_bounds large read
  by_cases small' : first < 2 ^ 53
  · rw [wholeDouble_of_small first small'] at read'
    have bits := (Nat.le_log2 (show second ≠ 0 by omega)).mpr large
    have power := Nat.pow_le_pow_right Nat.two_pos bits
    have other := some.inj read'
    omega
  · have large' : 2 ^ 53 ≤ first := Nat.le_of_not_lt small'
    have bounds' := wholeDouble_bounds large' read'
    have logs : Nat.log2 first ≤ Nat.log2 second := by
      rw [Nat.le_log2 (by omega)]
      exact (Nat.log2_self_le (by omega)).trans less
    obtain fewer | same := Nat.lt_or_eq_of_le logs
    · have power := Nat.pow_le_pow_right Nat.two_pos (Nat.succ_le_of_lt fewer)
      exact (bounds'.2.trans power).trans bounds.1
    · rw [wholeDouble_of_large second large] at read
      rw [wholeDouble_of_large first large', same] at read'
      have product := Nat.mul_le_mul_right (2 ^ (Nat.log2 second - 52))
        (roundToEven_mono (2 ^ (Nat.log2 second - 52)) less)
      split at read
      · split at read'
        · have one := some.inj read
          have other := some.inj read'
          omega
        · cases read'
      · cases read

theorem unsignedNumber_digits (text : List Char) (digits : ∀ char ∈ text, char.isDigit)
    (some' : text ≠ []) : unsignedNumber text = wholeDouble (decimal text) 1 := by
  have whole : text.takeWhile Char.isDigit = text := takeWhile_eq_self_iff.mpr digits
  have rest : text.dropWhile Char.isDigit = [] := dropWhile_eq_nil_iff.mpr digits
  unfold unsignedNumber
  rw [whole, rest]
  dsimp only
  rw [if_neg some']
  show scaledDouble (decimal text) 0 = _
  unfold scaledDouble
  rw [if_pos (by decide)]
  simp only [Int.toNat_zero, Nat.pow_zero, Nat.mul_one]

/-- A run of digits is read as the double of what it stands for. -/
theorem wholeNumber_digits (text : List Char) (digits : ∀ char ∈ text, char.isDigit)
    (some' : text ≠ []) : wholeNumber text = (wholeDouble (decimal text) 1).map Int.ofNat := by
  have plain : (unsignedNumber text).map Int.ofNat = (wholeDouble (decimal text) 1).map Int.ofNat := by
    rw [unsignedNumber_digits _ digits some']
  unfold wholeNumber
  rw [trimmed_digits _ digits]
  split
  · exact absurd rfl some'
  · exact absurd (digits '-' mem_cons_self) (by decide)
  · exact absurd (digits '+' mem_cons_self) (by decide)
  · next mark rest =>
    have digit := digits mark (mem_cons_of_mem _ mem_cons_self)
    rw [if_neg, if_neg, if_neg]
    · exact plain
    all_goals
      rintro (rfl | rfl) <;> exact absurd digit (by decide)
  · exact plain

/-- A decimal number is read back, as long as a double holds it. -/
theorem wholeNumber_toDigits (value : Nat) (small : value < 2 ^ 53) :
    wholeNumber (Nat.toDigits 10 value) = some (value : Int) := by
  have digits : ∀ char ∈ Nat.toDigits 10 value, char.isDigit :=
    fun char member => Nat.isDigit_of_mem_toDigits (by decide) (by decide) member
  rw [wholeNumber_digits _ digits Nat.toDigits_ne_nil]
  unfold decimal
  rw [Nat.ofDigitChars_toDigits (by decide) (by decide), wholeDouble_of_small value small]
  rfl

end Text
