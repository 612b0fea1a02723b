/-
This file is about the text the language gives a number of double precision, and about
the numbers of the data format. What is written is read back as the number it was, but
for the sign of a zero.
-/

import Geeboard.Text.Doubles

namespace Text

open List Option

/-! ### The text of a number -/

/-- A number of the language. -/
inductive Number
  | finite (value : ℚ)
  | minusZero
  | infinite (negative : Bool)
  deriving DecidableEq, Repr

/-- A decimal as the language writes it. -/
def Decimal.text (decimal : Decimal) : List Char :=
  let digits := Nat.toDigits 10 decimal.digits
  if decimal.count ≤ decimal.point ∧ decimal.point ≤ 21 then
    digits ++ List.replicate (decimal.point - decimal.count).toNat '0'
  else if 0 < decimal.point ∧ decimal.point ≤ 21 then
    digits.take decimal.point.toNat ++ '.' :: digits.drop decimal.point.toNat
  else if -6 < decimal.point ∧ decimal.point ≤ 0 then
    '0' :: '.' :: (List.replicate (-decimal.point).toNat '0' ++ digits)
  else
    digits.take 1 ++ (if decimal.count = 1 then [] else '.' :: digits.drop 1) ++
      'e' :: (if 0 ≤ decimal.point - 1 then '+' else '-') ::
        Nat.toDigits 10 (decimal.point - 1).natAbs

/-- The text of a number that is more than zero. -/
def positiveText (value : ℚ) : List Char := ((shortestDecimal value).map Decimal.text).getD []

/-- The text of a number. -/
def Number.text : Number → List Char
  | .finite value =>
    if value = 0 then ['0']
    else if value < 0 then '-' :: positiveText (-value) else positiveText value
  | .minusZero => ['0']
  | .infinite negative => if negative then "-Infinity".toList else "Infinity".toList

/-- The number with a sign and a magnitude, rounded. -/
def signed (negative : Bool) (magnitude : ℚ) : Number :=
  match roundDouble magnitude with
  | none => .infinite negative
  | some rounded =>
    if rounded = 0 then (if negative then .minusZero else .finite 0)
    else .finite (if negative then -rounded else rounded)

/-! ### The reading of a number -/

/-- The digits behind the point, when there is one, and what follows. -/
def fractionOf : List Char → Option (List Char × List Char)
  | '.' :: rest =>
    if (rest.takeWhile Char.isDigit).isEmpty then none
    else some (rest.takeWhile Char.isDigit, rest.dropWhile Char.isDigit)
  | rest => some ([], rest)

/-- What a number without a sign stands for. -/
def magnitudeOf (text : List Char) : Option ℚ :=
  let whole := text.takeWhile Char.isDigit
  if whole.isEmpty || (whole.length != 1 && whole.head? == some '0') then none
  else
    (fractionOf (text.dropWhile Char.isDigit)).bind fun parts =>
      (exponent parts.2).map fun shift : ℤ =>
        (decimal (whole ++ parts.1) : ℚ) * 10 ^ (shift - parts.1.length)

/-- The number that a text is, in the grammar of the data format. -/
def readNumber : List Char → Option Number
  | '-' :: rest => (magnitudeOf rest).map (signed true)
  | text => (magnitudeOf text).map (signed false)

/-! ### What is written is read -/

theorem decimal_append (front back : List Char) :
    decimal (front ++ back) = 10 ^ back.length * decimal front + decimal back := by
  unfold decimal
  rw [Nat.ofDigitChars_append, Nat.ofDigitChars_eq_ofDigitChars_zero]

theorem decimal_lt {digits : List Char} (are : ∀ char ∈ digits, char.isDigit = true) :
    decimal digits < 10 ^ digits.length := by
  induction digits using List.reverseRecOn with
  | nil => exact Nat.one_pos
  | append_singleton digits char inductionHypothesis =>
    have front := inductionHypothesis fun other member => are other (mem_append_left _ member)
    have digit := are char (mem_append_right _ (mem_singleton_self char))
    have last : decimal [char] < 10 := by
      unfold decimal
      rw [Nat.ofDigitChars_cons, Nat.ofDigitChars_nil]
      have most : char.toNat ≤ 57 := by
        rw [Char.isDigit, Bool.and_eq_true, decide_eq_true_eq, decide_eq_true_eq] at digit
        exact digit.2
      have nine : '0'.toNat = 48 := rfl
      omega
    rw [decimal_append, length_append, length_singleton, Nat.pow_succ]
    omega

/-- The digits of a decimal that has as many as it counts. -/
structure Digits (digits : List Char) (number count : ℕ) : Prop where
  are : ∀ char ∈ digits, char.isDigit = true
  number : decimal digits = number
  count : digits.length = count
  leads : digits.head? ≠ some '0'

theorem digits_of_bounds {number count : ℕ} (some_ : 0 < count)
    (least : 10 ^ (count - 1) ≤ number) (most : number < 10 ^ count) :
    Digits (Nat.toDigits 10 number) number count := by
  have are : ∀ char ∈ Nat.toDigits 10 number, char.isDigit = true :=
    fun char member => Nat.isDigit_of_mem_toDigits (by decide) (by decide) member
  have value : decimal (Nat.toDigits 10 number) = number :=
    Nat.ofDigitChars_toDigits (by decide) (by decide)
  have length : (Nat.toDigits 10 number).length = count := by
    refine Nat.le_antisymm ((Nat.length_toDigits_le_iff (by decide) some_).mpr most) ?_
    by_contra fewer
    have small := decimal_lt are
    rw [value] at small
    have grown : 10 ^ (Nat.toDigits 10 number).length ≤ 10 ^ (count - 1) :=
      Nat.pow_le_pow_right (by decide) (by omega)
    omega
  refine ⟨are, value, length, fun zero => ?_⟩
  cases digits : Nat.toDigits 10 number with
  | nil =>
    rw [digits] at zero
    cases zero
  | cons first rest =>
    rw [digits] at are value length zero
    obtain rfl := some.inj zero
    have small := decimal_lt fun char member => are char (mem_cons_of_mem _ member)
    have same : decimal ('0' :: rest) = decimal rest := by
      unfold decimal
      rw [Nat.ofDigitChars_cons]
      rfl
    rw [same] at value
    rw [length_cons] at length
    rw [value, show rest.length = count - 1 by omega] at small
    omega

theorem takeWhile_digits {digits rest : List Char} (are : ∀ char ∈ digits, char.isDigit = true)
    (ends : ∀ char ∈ rest.head?, char.isDigit = false) :
    (digits ++ rest).takeWhile Char.isDigit = digits ∧
      (digits ++ rest).dropWhile Char.isDigit = rest := by
  rw [takeWhile_append_of_pos are, dropWhile_append_of_pos are]
  cases rest with
  | nil => exact ⟨append_nil digits, rfl⟩
  | cons char rest =>
    have other := ends char rfl
    rw [takeWhile_cons_of_neg, dropWhile_cons_of_neg, append_nil]
    · exact ⟨rfl, rfl⟩
    · rw [other]
      exact Bool.false_ne_true
    · rw [other]
      exact Bool.false_ne_true

/-- The digits of a number read as one, when those before the point do not begin with a zero that
is not alone. -/
theorem magnitudeOf_digits (whole rest : List Char) {fraction behind : List Char} {shift : ℤ}
    (are : ∀ char ∈ whole, char.isDigit = true) (some_ : whole ≠ [])
    (leads : whole.length = 1 ∨ whole.head? ≠ some '0')
    (ends : ∀ char ∈ rest.head?, char.isDigit = false)
    (parts : fractionOf rest = some (fraction, behind)) (power : exponent behind = some shift) :
    magnitudeOf (whole ++ rest) =
      some ((decimal (whole ++ fraction) : ℚ) * 10 ^ (shift - fraction.length)) := by
  obtain ⟨front, back⟩ := takeWhile_digits are ends
  have proper : ¬(whole.isEmpty || (whole.length != 1 && whole.head? == some '0')) = true := by
    rw [Bool.or_eq_true, Bool.and_eq_true, bne_iff_ne, beq_iff_eq, List.isEmpty_iff]
    rintro (none_ | ⟨several, zero⟩)
    · exact some_ none_
    · exact leads.elim several fun other => other zero
  unfold magnitudeOf
  dsimp only
  rw [front, back, if_neg proper, parts, bind_some, power]
  rfl

theorem fractionOf_point {fraction rest : List Char}
    (are : ∀ char ∈ fraction, char.isDigit = true) (some_ : fraction ≠ [])
    (ends : ∀ char ∈ rest.head?, char.isDigit = false) :
    fractionOf ('.' :: (fraction ++ rest)) = some (fraction, rest) := by
  obtain ⟨front, back⟩ := takeWhile_digits are ends
  rw [fractionOf, front, back, if_neg (by rwa [List.isEmpty_iff])]

/-- A power of ten as the language writes it. -/
theorem exponent_written (shift : ℤ) :
    exponent ('e' :: (if 0 ≤ shift then '+' else '-') :: Nat.toDigits 10 shift.natAbs) =
      some shift := by
  have are : (Nat.toDigits 10 shift.natAbs).all Char.isDigit = true := by
    rw [List.all_eq_true]
    exact fun char member => Nat.isDigit_of_mem_toDigits (by decide) (by decide) member
  have proper : Nat.toDigits 10 shift.natAbs ≠ [] ∧
      (Nat.toDigits 10 shift.natAbs).all Char.isDigit = true := ⟨Nat.toDigits_ne_nil, are⟩
  have value : decimal (Nat.toDigits 10 shift.natAbs) = shift.natAbs :=
    Nat.ofDigitChars_toDigits (by decide) (by decide)
  by_cases positive : 0 ≤ shift
  · rw [if_pos positive, exponent, if_pos (Or.inl rfl), if_pos proper, value,
      Int.natAbs_of_nonneg positive]
  · rw [if_neg positive, exponent, if_pos (Or.inl rfl), if_pos proper, value,
      Int.ofNat_natAbs_of_nonpos (by omega), Int.neg_neg]

theorem decimal_zeros (count : ℕ) : decimal (List.replicate count '0') = 0 := by
  unfold decimal
  rw [Nat.ofDigitChars_replicate_zero, Nat.mul_zero]

theorem isDigit_zeros (count : ℕ) :
    ∀ char ∈ List.replicate count '0', char.isDigit = true := by
  intro char member
  rw [eq_of_mem_replicate member]
  rfl

theorem no_digit_nil : ∀ char ∈ ([] : List Char).head?, char.isDigit = false := by
  intro char head
  cases head

theorem no_digit_cons {first : Char} (other : first.isDigit = false) (rest : List Char) :
    ∀ char ∈ (first :: rest).head?, char.isDigit = false := by
  intro char head
  cases head
  exact other

section Written

variable {digits : List Char} {number count : ℕ}

theorem Digits.ne_nil (written : Digits digits number count) (some_ : 0 < count) : digits ≠ [] :=
  ne_nil_of_length_pos (written.count ▸ some_)

/-- All digits stand before the point, and zeros behind them. -/
theorem magnitudeOf_whole (written : Digits digits number count) (some_ : 0 < count)
    (zeros : ℕ) :
    magnitudeOf (digits ++ List.replicate zeros '0') = some ((number : ℚ) * 10 ^ (zeros : ℤ)) := by
  have filled := written.ne_nil some_
  have are : ∀ char ∈ digits ++ List.replicate zeros '0', char.isDigit = true :=
    fun char member =>
      (mem_append.mp member).elim (written.are char) (isDigit_zeros zeros char)
  have leads : (digits ++ List.replicate zeros '0').head? ≠ some '0' := by
    rw [head?_append_of_ne_nil digits filled]
    exact written.leads
  have read := magnitudeOf_digits (digits ++ List.replicate zeros '0') [] are
    (append_ne_nil_of_left_ne_nil filled _) (Or.inr leads) no_digit_nil rfl rfl
  have value : decimal (digits ++ List.replicate zeros '0') = 10 ^ zeros * number := by
    rw [decimal_append, decimal_zeros, written.number, length_replicate,
      Nat.add_zero]
  rw [append_nil] at read
  rw [read, value, length_nil, Nat.cast_zero, sub_zero, zpow_zero, mul_one, zpow_natCast]
  push_cast
  rw [mul_comm]

/-- The point stands between the digits. -/
theorem magnitudeOf_point (written : Digits digits number count) {front : ℕ} (some_ : 0 < front)
    (less : front < count) :
    magnitudeOf (digits.take front ++ '.' :: digits.drop front) =
      some ((number : ℚ) * 10 ^ (front - count : ℤ)) := by
  have length := written.count
  have inFront : ∀ char ∈ digits.take front, char.isDigit = true :=
    fun char member => written.are char (mem_of_mem_take member)
  have behind : ∀ char ∈ digits.drop front, char.isDigit = true :=
    fun char member => written.are char (mem_of_mem_drop member)
  have filled : digits.drop front ≠ [] := by
    refine ne_nil_of_length_pos ?_
    rw [length_drop]
    omega
  have leads : (digits.take front).head? ≠ some '0' := by
    rw [head?_take, if_neg some_.ne']
    exact written.leads
  have wholes : digits.take front ≠ [] := by
    refine ne_nil_of_length_pos ?_
    rw [length_take]
    omega
  have parts := fractionOf_point behind filled no_digit_nil
  rw [append_nil] at parts
  rw [magnitudeOf_digits _ _ inFront wholes (Or.inr leads) (no_digit_cons rfl _) parts rfl,
    take_append_drop, written.number, length_drop, length]
  congr 3
  omega

/-- Zeros stand between the point and the digits. -/
theorem magnitudeOf_small (written : Digits digits number count) (some_ : 0 < count)
    (zeros : ℕ) :
    magnitudeOf ('0' :: '.' :: (List.replicate zeros '0' ++ digits)) =
      some ((number : ℚ) * 10 ^ (-(zeros : ℤ) - count)) := by
  have filled := written.ne_nil some_
  have are : ∀ char ∈ List.replicate zeros '0' ++ digits, char.isDigit = true :=
    fun char member =>
      (mem_append.mp member).elim (isDigit_zeros zeros char) (written.are char)
  have parts := fractionOf_point are (append_ne_nil_of_right_ne_nil _ filled) no_digit_nil
  rw [append_nil] at parts
  have read := magnitudeOf_digits ['0'] _ (isDigit_zeros 1) (cons_ne_nil _ _) (Or.inl rfl)
    (no_digit_cons rfl _) parts rfl
  have value : decimal (['0'] ++ (List.replicate zeros '0' ++ digits)) = number := by
    rw [← append_assoc, decimal_append, written.number, decimal_append, decimal_zeros]
    show 10 ^ digits.length * (10 ^ _ * 0 + 0) + number = number
    rw [Nat.mul_zero, Nat.add_zero, Nat.mul_zero, Nat.zero_add]
  rw [value, length_append, length_replicate, written.count] at read
  refine read.trans ?_
  congr 3
  push_cast
  ring

/-- One digit stands before the point, and a power of ten behind the others. -/
theorem magnitudeOf_power (written : Digits digits number count) (some_ : 0 < count)
    (shift : ℤ) :
    magnitudeOf (digits.take 1 ++ (if count = 1 then [] else '.' :: digits.drop 1) ++
        'e' :: (if 0 ≤ shift then '+' else '-') :: Nat.toDigits 10 shift.natAbs) =
      some ((number : ℚ) * 10 ^ (shift + 1 - count)) := by
  have length := written.count
  have inFront : ∀ char ∈ digits.take 1, char.isDigit = true :=
    fun char member => written.are char (mem_of_mem_take member)
  have one : (digits.take 1).length = 1 := by
    rw [length_take]
    omega
  have wholes : digits.take 1 ≠ [] := ne_nil_of_length_pos (by omega)
  by_cases alone : count = 1
  · rw [if_pos alone, append_nil,
      magnitudeOf_digits _ _ inFront wholes (Or.inl one) (no_digit_cons rfl _) rfl
        (exponent_written shift),
      append_nil, take_of_length_le (by omega), written.number, alone]
    rw [length_nil, Nat.cast_zero, sub_zero, Nat.cast_one, add_sub_cancel_right]
  · have behind : ∀ char ∈ digits.drop 1, char.isDigit = true :=
      fun char member => written.are char (mem_of_mem_drop member)
    have filled : digits.drop 1 ≠ [] := by
      refine ne_nil_of_length_pos ?_
      rw [length_drop]
      omega
    have parts := fractionOf_point behind filled (no_digit_cons (rfl : 'e'.isDigit = false)
      ((if 0 ≤ shift then '+' else '-') :: Nat.toDigits 10 shift.natAbs))
    rw [if_neg alone, append_assoc, cons_append,
      magnitudeOf_digits _ _ inFront wholes (Or.inl one) (no_digit_cons rfl _) parts
        (exponent_written shift),
      take_append_drop, written.number, length_drop, length]
    congr 3
    omega

end Written

/-- A decimal is read as what it is. -/
theorem magnitudeOf_text {decimal : Decimal} (some_ : 0 < decimal.count)
    (least : 10 ^ (decimal.count - 1) ≤ decimal.digits)
    (most : decimal.digits < 10 ^ decimal.count) :
    magnitudeOf decimal.text = some decimal.value := by
  obtain ⟨number, count, point⟩ := decimal
  dsimp only at some_ least most
  have written := digits_of_bounds some_ least most
  unfold Decimal.text Decimal.value
  dsimp only
  split
  · next large =>
    obtain ⟨zeros, same⟩ := Int.le.dest large.1
    rw [show point - (count : ℤ) = zeros by omega, Int.toNat_natCast]
    exact magnitudeOf_whole written some_ zeros
  split
  · next large inner =>
    obtain ⟨front, rfl⟩ := Int.eq_ofNat_of_zero_le inner.1.le
    rw [Int.toNat_natCast]
    exact magnitudeOf_point written (by omega) (by omega)
  split
  · next small =>
    obtain ⟨zeros, same⟩ := Int.eq_ofNat_of_zero_le (show 0 ≤ -point by omega)
    rw [show point - (count : ℤ) = -(zeros : ℤ) - count by omega, same, Int.toNat_natCast]
    exact magnitudeOf_small written some_ zeros
  · have read := magnitudeOf_power written some_ (point - 1)
    rwa [sub_add_cancel] at read

/-- A number that there is. -/
def Number.IsDouble : Number → Prop
  | .finite value => Text.IsDouble |value|
  | _ => True

/-- A number that is not infinite. -/
def Number.IsFinite : Number → Prop
  | .infinite _ => False
  | _ => True

/-- The number without the sign of a zero. -/
def Number.unsigned : Number → Number
  | .minusZero => .finite 0
  | number => number

theorem isDouble_signed (negative : Bool) {value : ℚ} (positive : 0 ≤ value) :
    (signed negative value).IsDouble := by
  unfold signed
  split
  · trivial
  · next rounded rounds =>
    have double := isDouble_of_roundDouble positive rounds
    have least := roundDouble_nonneg positive rounds
    split
    · split
      · trivial
      · show Text.IsDouble |0|
        rw [abs_zero]
        exact if_pos rfl
    · show Text.IsDouble |_|
      split
      · rwa [abs_neg, abs_of_nonneg least]
      · rwa [abs_of_nonneg least]

theorem magnitudeOf_nonneg {text : List Char} {value : ℚ} (read : magnitudeOf text = some value) :
    0 ≤ value := by
  unfold magnitudeOf at read
  dsimp only at read
  split at read
  · cases read
  · obtain ⟨parts, -, more⟩ := bind_eq_some_iff.mp read
    obtain ⟨shift, -, rfl⟩ := map_eq_some_iff.mp more
    exact mul_nonneg (Nat.cast_nonneg _) (ten_zpow_pos _).le

/-- What is read is a number. -/
theorem isDouble_readNumber {text : List Char} {number : Number}
    (read : readNumber text = some number) : number.IsDouble := by
  unfold readNumber at read
  split at read
  · obtain ⟨value, magnitude, rfl⟩ := map_eq_some_iff.mp read
    exact isDouble_signed true (magnitudeOf_nonneg magnitude)
  · obtain ⟨value, magnitude, rfl⟩ := map_eq_some_iff.mp read
    exact isDouble_signed false (magnitudeOf_nonneg magnitude)

/-- A character that may stand in the text of a number. -/
def isNumberChar (char : Char) : Bool :=
  char.isDigit || ['-', '+', '.', 'e', 'E'].contains char

theorem isNumberChar_of_isDigit {char : Char} (digit : char.isDigit = true) :
    isNumberChar char = true := by
  unfold isNumberChar
  rw [digit, Bool.true_or]

theorem isNumberChar_toDigits (number : ℕ) :
    ∀ char ∈ Nat.toDigits 10 number, isNumberChar char = true :=
  fun _ member =>
    isNumberChar_of_isDigit (Nat.isDigit_of_mem_toDigits (by decide) (by decide) member)

theorem isNumberChar_text (decimal : Decimal) :
    ∀ char ∈ decimal.text, isNumberChar char = true := by
  have digits := isNumberChar_toDigits decimal.digits
  have zeros : ∀ (count : ℕ) (char : Char), char ∈ List.replicate count '0' →
      isNumberChar char = true :=
    fun count char member => isNumberChar_of_isDigit (isDigit_zeros count char member)
  unfold Decimal.text
  dsimp only
  intro char member
  split at member
  · exact (mem_append.mp member).elim (digits char) (zeros _ char)
  split at member
  · rcases mem_append.mp member with front | behind
    · exact digits char (mem_of_mem_take front)
    rcases mem_cons.mp behind with rfl | behind
    · rfl
    · exact digits char (mem_of_mem_drop behind)
  split at member
  · rcases mem_cons.mp member with rfl | member
    · rfl
    rcases mem_cons.mp member with rfl | member
    · rfl
    · exact (mem_append.mp member).elim (zeros _ char) (digits char)
  · rcases mem_append.mp member with front | behind
    · rcases mem_append.mp front with first | others
      · exact digits char (mem_of_mem_take first)
      · split at others
        · cases others
        rcases mem_cons.mp others with rfl | others
        · rfl
        · exact digits char (mem_of_mem_drop others)
    rcases mem_cons.mp behind with rfl | behind
    · rfl
    rcases mem_cons.mp behind with rfl | behind
    · split
      · rfl
      · rfl
    · exact isNumberChar_toDigits _ char behind

/-- The text of a number that is more than zero is read as the number. -/
theorem magnitudeOf_positiveText {value : ℚ} (double : IsDouble value) (more : 0 < value) :
    ∃ magnitude, magnitudeOf (positiveText value) = some magnitude ∧
      roundDouble magnitude = some value ∧
      ∀ char ∈ positiveText value, isNumberChar char = true := by
  obtain ⟨decimal, shortest, finds⟩ := exists_shortestDecimal double more
  have text : positiveText value = decimal.text := by
    unfold positiveText
    rw [shortest]
    rfl
  rw [text]
  exact ⟨decimal.value, magnitudeOf_text finds.some_ finds.least finds.most, finds.rounds,
    isNumberChar_text decimal⟩

theorem signed_of_rounds {magnitude value : ℚ} (rounds : roundDouble magnitude = some value)
    (some_ : value ≠ 0) (negative : Bool) :
    signed negative magnitude = .finite (if negative then -value else value) := by
  unfold signed
  rw [rounds]
  exact if_neg some_

/-- A text with a magnitude has no sign. -/
theorem readNumber_of_magnitudeOf {text : List Char} {magnitude : ℚ}
    (read : magnitudeOf text = some magnitude) :
    readNumber text = some (signed false magnitude) := by
  unfold readNumber
  split
  · cases read
  · rw [read]
    rfl

theorem text_finite (value : ℚ) :
    (Number.finite value).text =
      if value = 0 then ['0']
      else if value < 0 then '-' :: positiveText (-value) else positiveText value := rfl

/-- A number that is not infinite is read as it is written, a zero without its sign. -/
theorem readNumber_text {number : Number} (double : number.IsDouble) (finite : number.IsFinite) :
    readNumber number.text = some number.unsigned ∧ number.text ≠ [] ∧
      ∀ char ∈ number.text, isNumberChar char = true := by
  have zero : readNumber ['0'] = some (.finite 0) := by decide +kernel
  have zeroChar : ∀ char ∈ ['0'], isNumberChar char = true := by decide +kernel
  cases number with
  | infinite negative => exact absurd finite id
  | minusZero => exact ⟨zero, cons_ne_nil _ _, zeroChar⟩
  | finite value =>
    have double_ : Text.IsDouble |value| := double
    rw [text_finite]
    rcases lt_trichotomy value 0 with less | rfl | more
    · rw [if_neg less.ne, if_pos less]
      rw [abs_of_neg less] at double_
      obtain ⟨magnitude, read, rounds, chars⟩ :=
        magnitudeOf_positiveText double_ (neg_pos.mpr less)
      refine ⟨?_, cons_ne_nil _ _, forall_mem_cons.mpr ⟨rfl, chars⟩⟩
      rw [readNumber, read, map_some, signed_of_rounds rounds (neg_ne_zero.mpr less.ne),
        if_pos rfl, neg_neg]
      rfl
    · rw [if_pos rfl]
      exact ⟨zero, cons_ne_nil _ _, zeroChar⟩
    · rw [if_neg more.ne', if_neg (not_lt.mpr more.le)]
      rw [abs_of_pos more] at double_
      obtain ⟨magnitude, read, rounds, chars⟩ := magnitudeOf_positiveText double_ more
      refine ⟨?_, ?_, chars⟩
      · rw [readNumber_of_magnitudeOf read, signed_of_rounds rounds more.ne',
          if_neg Bool.false_ne_true]
        rfl
      · intro none_
        rw [none_] at read
        cases read

end Text
