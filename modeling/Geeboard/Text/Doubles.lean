/-
This file is about numbers of double precision and their shortest decimals.

A number is kept as the rational it stands for. A rational is rounded to the nearest
number, to the even one in the middle, and past the largest one there is none. The
decimal of a number has as few digits as are enough to find the number again.
-/

import Geeboard.Text.Numerals
import Mathlib.Data.Int.Log
import Mathlib.Data.Rat.Floor
import Mathlib.Tactic.Linarith
import Mathlib.Tactic.Ring

namespace Text

open Option

/-! ### Rounding -/

/-- The nearest whole number, the even one in the middle. -/
def roundEven (value : ℚ) : ℤ :=
  if value - ⌊value⌋ < 1 / 2 then ⌊value⌋
  else if 1 / 2 < value - ⌊value⌋ then ⌊value⌋ + 1
  else if ⌊value⌋ % 2 = 0 then ⌊value⌋ else ⌊value⌋ + 1

/-- The exponent of the last place that is kept of a value. -/
def lastPlace (value : ℚ) : ℤ := max (Int.log 2 value - 52) (-1074)

/-- The nearest number to a value that is not negative, and none past the largest one. -/
def roundDouble (value : ℚ) : Option ℚ :=
  if value = 0 then some 0
  else
    let rounded : ℚ := roundEven (value / 2 ^ lastPlace value) * 2 ^ lastPlace value
    if rounded < 2 ^ 1024 then some rounded else none

/-- A value that is the nearest number to itself. -/
def IsDouble (value : ℚ) : Prop := roundDouble value = some value

theorem roundEven_intCast (number : ℤ) : roundEven number = number := by
  unfold roundEven
  rw [Int.floor_intCast, sub_self, if_pos (by norm_num)]

theorem le_roundEven {value : ℚ} {number : ℤ} (most : (number : ℚ) ≤ value) :
    number ≤ roundEven value := by
  have floor := Int.le_floor.mpr most
  unfold roundEven
  split
  · exact floor
  split
  · omega
  split
  · exact floor
  · omega

theorem roundEven_le {value : ℚ} {number : ℤ} (most : value ≤ number) :
    roundEven value ≤ number := by
  have floor : ⌊value⌋ ≤ number := Int.floor_le_iff.mpr (lt_of_le_of_lt most (lt_add_one _))
  by_cases exact_ : value = number
  · rw [exact_, roundEven_intCast]
  · have less : value < number := lt_of_le_of_ne most exact_
    have below : ⌊value⌋ < number := Int.floor_lt.mpr less
    unfold roundEven
    split
    · exact floor
    split
    · omega
    split
    · exact floor
    · omega

theorem two_zpow_pos (exponent : ℤ) : (0 : ℚ) < 2 ^ exponent := zpow_pos two_pos exponent

/-- What is kept of a value is no more than fifty-three places, or one more of them. -/
theorem roundEven_div_le (value : ℚ) :
    roundEven (value / 2 ^ lastPlace value) ≤ 2 ^ 53 := by
  refine roundEven_le ?_
  have less : value < 2 ^ (Int.log 2 value + 1) :=
    Int.lt_zpow_succ_log_self (b := 2) Nat.one_lt_two value
  have place : Int.log 2 value + 1 ≤ 53 + lastPlace value := by
    unfold lastPlace
    omega
  rw [div_le_iff₀ (two_zpow_pos _)]
  calc value ≤ 2 ^ (Int.log 2 value + 1) := less.le
    _ ≤ 2 ^ (53 + lastPlace value) := zpow_le_zpow_right₀ one_le_two place
    _ = 2 ^ (53 : ℤ) * 2 ^ lastPlace value := zpow_add₀ two_ne_zero _ _
    _ = ((2 ^ 53 : ℤ) : ℚ) * 2 ^ lastPlace value := by norm_num

/-- A whole number of places that can be kept is kept as it is. -/
theorem roundDouble_of_places {value : ℚ} (some_ : 0 < value) (less : value < 2 ^ 1024)
    {places : ℤ} (whole : value = places * 2 ^ lastPlace value) :
    roundDouble value = some value := by
  have same : value / 2 ^ lastPlace value = places := by
    rw [div_eq_iff (two_zpow_pos _).ne']
    exact whole
  unfold roundDouble
  rw [if_neg some_.ne', same, roundEven_intCast, ← whole]
  exact if_pos less

theorem roundDouble_cases {value double : ℚ} (rounds : roundDouble value = some double) :
    (value = 0 ∧ double = 0) ∨ (value ≠ 0 ∧ double < 2 ^ 1024 ∧
      double = roundEven (value / 2 ^ lastPlace value) * 2 ^ lastPlace value) := by
  unfold roundDouble at rounds
  split at rounds
  · next zero => exact Or.inl ⟨zero, (some.inj rounds).symm⟩
  · next some_ =>
    dsimp only at rounds
    split at rounds
    · next less =>
      obtain rfl := some.inj rounds
      exact Or.inr ⟨some_, less, rfl⟩
    · cases rounds

theorem roundDouble_nonneg {value double : ℚ} (some_ : 0 ≤ value)
    (rounds : roundDouble value = some double) : 0 ≤ double := by
  rcases roundDouble_cases rounds with ⟨-, rfl⟩ | ⟨-, -, rfl⟩
  · exact le_refl 0
  · refine mul_nonneg ?_ (two_zpow_pos _).le
    have whole : ((0 : ℤ) : ℚ) ≤ value / 2 ^ lastPlace value := by
      rw [Int.cast_zero]
      exact div_nonneg some_ (two_zpow_pos _).le
    exact_mod_cast le_roundEven whole

/-- What a value is rounded to is rounded to itself. -/
theorem isDouble_of_roundDouble {value double : ℚ} (some_ : 0 ≤ value)
    (rounds : roundDouble value = some double) : IsDouble double := by
  have positive := roundDouble_nonneg some_ rounds
  rcases roundDouble_cases rounds with ⟨-, rfl⟩ | ⟨-, less, made⟩
  · exact if_pos rfl
  have most := roundEven_div_le value
  generalize roundEven (value / 2 ^ lastPlace value) = places at made most
  have least : -1074 ≤ lastPlace value := le_max_right _ _
  generalize lastPlace value = place at made least
  rcases positive.eq_or_lt with zero | more
  · rw [← zero]
    exact if_pos rfl
  by_cases fits : lastPlace double ≤ place
  · -- The places are counted in a finer last place.
    obtain ⟨shift, same⟩ := Int.le.dest fits
    refine roundDouble_of_places more less (?_ : double = ((places * 2 ^ shift : ℤ) : ℚ) * _)
    calc double = places * 2 ^ place := made
      _ = places * 2 ^ (lastPlace double + shift) := by rw [same]
      _ = places * (2 ^ lastPlace double * 2 ^ shift) := by
        rw [zpow_add₀ two_ne_zero, zpow_natCast]
      _ = ((places * 2 ^ shift : ℤ) : ℚ) * 2 ^ lastPlace double := by
        push_cast
        ring
  · -- All places are ones and were rounded up, which makes one more of them.
    have lies : lastPlace double = Int.log 2 double - 52 := by
      unfold lastPlace at fits ⊢
      omega
    have large : (2 : ℚ) ^ (place + 53) ≤ double :=
      (Int.zpow_le_iff_le_log (b := 2) Nat.one_lt_two more).mpr (by omega)
    rw [zpow_add₀ two_ne_zero, mul_comm, made] at large
    have full : (2 ^ 53 : ℤ) ≤ places := by
      exact_mod_cast le_of_mul_le_mul_right large (two_zpow_pos place)
    have is : places = 2 ^ 53 := le_antisymm most full
    have power : double = (2 : ℚ) ^ (place + 53) := by
      rw [made, is, zpow_add₀ two_ne_zero, mul_comm]
      norm_num
    have log : Int.log 2 double = place + 53 := by
      rw [power]
      exact Int.log_zpow Nat.one_lt_two _
    refine roundDouble_of_places more less (?_ : double = ((2 ^ 52 : ℤ) : ℚ) * _)
    rw [lies, log, power]
    have split : place + 53 = 52 + (place + 53 - 52) := by omega
    conv_lhs => rw [split]
    rw [zpow_add₀ two_ne_zero]
    norm_num

/-- Past the largest number there is none. -/
theorem roundDouble_of_large {value : ℚ} (large : 2 ^ 1024 ≤ value) : roundDouble value = none := by
  have more : 0 < value := lt_of_lt_of_le (pow_pos two_pos 1024) large
  have log : 1024 ≤ Int.log 2 value := by
    refine (Int.zpow_le_iff_le_log (b := 2) Nat.one_lt_two more).mp ?_
    exact_mod_cast large
  have lies : lastPlace value = Int.log 2 value - 52 := by
    unfold lastPlace
    omega
  have low : (2 : ℚ) ^ Int.log 2 value ≤ value := Int.zpow_log_le_self (b := 2) Nat.one_lt_two more
  have split : (2 : ℚ) ^ Int.log 2 value = ((2 ^ 52 : ℤ) : ℚ) * 2 ^ lastPlace value := by
    have places : Int.log 2 value = 52 + lastPlace value := by omega
    conv_lhs => rw [places]
    rw [zpow_add₀ two_ne_zero]
    norm_num
  have places : 2 ^ 52 ≤ roundEven (value / 2 ^ lastPlace value) := by
    refine le_roundEven ?_
    rwa [le_div_iff₀ (two_zpow_pos _), ← split]
  have past : (2 : ℚ) ^ 1024 ≤ roundEven (value / 2 ^ lastPlace value) * 2 ^ lastPlace value :=
    calc (2 : ℚ) ^ 1024 = 2 ^ (1024 : ℤ) := rfl
      _ ≤ 2 ^ Int.log 2 value := zpow_le_zpow_right₀ one_le_two log
      _ = ((2 ^ 52 : ℤ) : ℚ) * 2 ^ lastPlace value := split
      _ ≤ _ := mul_le_mul_of_nonneg_right (by exact_mod_cast places) (two_zpow_pos _).le
  unfold roundDouble
  rw [if_neg more.ne']
  exact if_neg (not_lt.mpr past)

/-! ### The shortest decimal -/

/-- So many digits, and where the point stands: before the first digit when it is zero. -/
structure Decimal where
  digits : ℕ
  count : ℕ
  point : ℤ
  deriving DecidableEq, Repr

def Decimal.value (decimal : Decimal) : ℚ :=
  decimal.digits * 10 ^ (decimal.point - decimal.count)

/-- Where the point of a value stands. -/
def pointOf (value : ℚ) : ℤ := Int.log 10 value + 1

/-- The largest decimal of so many digits that is no larger than a value. -/
def decimalBelow (value : ℚ) (count : ℕ) : Decimal :=
  ⟨⌊value / 10 ^ (pointOf value - count)⌋.toNat, count, pointOf value⟩

/-- The decimal of so many digits that follows it. -/
def decimalAbove (value : ℚ) (count : ℕ) : Decimal :=
  let below := decimalBelow value count
  if below.digits + 1 = 10 ^ count then ⟨10 ^ (count - 1), count, below.point + 1⟩
  else ⟨below.digits + 1, count, below.point⟩

/-- A decimal of so many digits that is rounded to a value, the closest one, and of two that are
as close the even one. -/
def decimalWith (value : ℚ) (count : ℕ) : Option Decimal :=
  let below := decimalBelow value count
  let above := decimalAbove value count
  if roundDouble below.value = some value then
    if roundDouble above.value = some value ∧
        (above.value - value < value - below.value ∨
          (above.value - value = value - below.value ∧ above.digits % 2 = 0)) then some above
    else some below
  else if roundDouble above.value = some value then some above else none

/-- The decimal with as few digits as are enough to find a value again. -/
def shortestDecimal (value : ℚ) : Option Decimal :=
  (List.range (pointOf value + 1074).toNat).findSome? fun index => decimalWith value (index + 1)

/-- A decimal that has as many digits as it counts, and is rounded to a value. -/
structure Decimal.Finds (decimal : Decimal) (value : ℚ) : Prop where
  some_ : 0 < decimal.count
  least : 10 ^ (decimal.count - 1) ≤ decimal.digits
  most : decimal.digits < 10 ^ decimal.count
  rounds : roundDouble decimal.value = some value

theorem ten_zpow_pos (exponent : ℤ) : (0 : ℚ) < 10 ^ exponent := zpow_pos (by norm_num) exponent

/-- What a value is in the places of so many digits. -/
theorem scaled_bounds {value : ℚ} (more : 0 < value) (count : ℕ) :
    10 ^ (count - 1 : ℤ) ≤ value / 10 ^ (pointOf value - count) ∧
      value / 10 ^ (pointOf value - count) < 10 ^ (count : ℤ) := by
  have low : (10 : ℚ) ^ Int.log 10 value ≤ value :=
    Int.zpow_log_le_self (b := 10) (by norm_num) more
  have high : value < (10 : ℚ) ^ (Int.log 10 value + 1) :=
    Int.lt_zpow_succ_log_self (b := 10) (by norm_num) value
  have ten : (10 : ℚ) ≠ 0 := by norm_num
  rw [le_div_iff₀ (ten_zpow_pos _), div_lt_iff₀ (ten_zpow_pos _), ← zpow_add₀ ten, ← zpow_add₀ ten]
  unfold pointOf
  constructor
  · rwa [show (count - 1 + (Int.log 10 value + 1 - count) : ℤ) = Int.log 10 value by ring]
  · rwa [show (count + (Int.log 10 value + 1 - count) : ℤ) = Int.log 10 value + 1 by ring]

theorem decimalBelow_bounds {value : ℚ} (more : 0 < value) {count : ℕ} (some_ : 0 < count) :
    10 ^ (count - 1) ≤ (decimalBelow value count).digits ∧
      (decimalBelow value count).digits < 10 ^ count := by
  obtain ⟨low, high⟩ := scaled_bounds more count
  unfold decimalBelow
  dsimp only
  generalize value / 10 ^ (pointOf value - count) = scaled at low high
  have least : ((10 ^ (count - 1) : ℕ) : ℤ) ≤ ⌊scaled⌋ := by
    refine Int.le_floor.mpr ?_
    push_cast
    rwa [← zpow_natCast, Nat.cast_sub some_, Nat.cast_one]
  have most : ⌊scaled⌋ < ((10 ^ count : ℕ) : ℤ) := by
    refine Int.floor_lt.mpr ?_
    push_cast
    rwa [← zpow_natCast]
  have positive : 0 ≤ ⌊scaled⌋ := (Int.natCast_nonneg _).trans least
  exact ⟨(Int.le_toNat positive).mpr least, (Int.toNat_lt positive).mpr most⟩

theorem decimalAbove_bounds {value : ℚ} (more : 0 < value) {count : ℕ} (some_ : 0 < count) :
    10 ^ (count - 1) ≤ (decimalAbove value count).digits ∧
      (decimalAbove value count).digits < 10 ^ count ∧
      (decimalAbove value count).count = count := by
  obtain ⟨low, high⟩ := decimalBelow_bounds more some_
  unfold decimalAbove
  dsimp only
  split
  · refine ⟨le_refl _, ?_, rfl⟩
    exact Nat.pow_lt_pow_right (by decide) (Nat.sub_lt some_ Nat.one_pos)
  · next room => exact ⟨by dsimp only; omega, by dsimp only; omega, rfl⟩

theorem finds_of_decimalWith {value : ℚ} (more : 0 < value) {count : ℕ} (some_ : 0 < count)
    {decimal : Decimal} (found : decimalWith value count = some decimal) :
    decimal.Finds value := by
  have below : roundDouble (decimalBelow value count).value = some value →
      (decimalBelow value count).Finds value := by
    intro rounds
    obtain ⟨least, most⟩ := decimalBelow_bounds more some_
    exact ⟨some_, least, most, rounds⟩
  have above : roundDouble (decimalAbove value count).value = some value →
      (decimalAbove value count).Finds value := by
    intro rounds
    obtain ⟨least, most, same⟩ := decimalAbove_bounds more some_
    exact ⟨by rwa [same], by rwa [same], by rwa [same], rounds⟩
  unfold decimalWith at found
  dsimp only at found
  split at found
  · next fits =>
    split at found
    · next both => exact some.inj found ▸ above both.1
    · exact some.inj found ▸ below fits
  · split at found
    · next fits => exact some.inj found ▸ above fits
    · cases found

/-- Places of two are places of ten. -/
theorem places_of_ten {value : ℚ} {places place : ℤ} {shift depth : ℕ}
    (made : value = places * 2 ^ place) (deep : -(depth : ℤ) + shift = place) :
    value * 10 ^ (depth : ℤ) = ((places * 2 ^ shift * 5 ^ depth : ℤ) : ℚ) := by
  have ten : (10 : ℚ) ^ (depth : ℤ) = 2 ^ (depth : ℤ) * 5 ^ (depth : ℤ) := by
    rw [← mul_zpow, show (2 * 5 : ℚ) = 10 by norm_num]
  have two : (2 : ℚ) ^ place * 2 ^ (depth : ℤ) = 2 ^ shift := by
    rw [← zpow_add₀ two_ne_zero, ← deep, show (-(depth : ℤ) + shift + depth) = shift by ring,
      zpow_natCast]
  calc value * 10 ^ (depth : ℤ) = places * (2 ^ place * 2 ^ (depth : ℤ)) * 5 ^ (depth : ℤ) := by
        rw [made, ten]
        ring
    _ = ((places * 2 ^ shift * 5 ^ depth : ℤ) : ℚ) := by
        rw [two, zpow_natCast]
        push_cast
        ring

/-- A value with so many places of ten is a decimal. -/
theorem exists_decimalBelow {value : ℚ} (more : 0 < value) {depth : ℕ} {places : ℤ}
    (whole : value * 10 ^ (depth : ℤ) = places) :
    ∃ count, 0 < count ∧ count ≤ (pointOf value + depth).toNat ∧
      (decimalBelow value count).value = value := by
  have some_ : 0 < places := by
    have positive : (0 : ℚ) < places := whole ▸ mul_pos more (ten_zpow_pos _)
    exact_mod_cast positive
  have ten : (10 : ℚ) ≠ 0 := by norm_num
  have same : value = places * 10 ^ (-(depth : ℤ)) := by
    rw [← whole, mul_assoc, ← zpow_add₀ ten, add_neg_cancel, zpow_zero, mul_one]
  have large : (10 : ℚ) ^ (-(depth : ℤ)) ≤ value := by
    have one : (1 : ℚ) ≤ places := by exact_mod_cast some_
    rw [same]
    exact le_mul_of_one_le_left (ten_zpow_pos _).le one
  have log : -(depth : ℤ) ≤ Int.log 10 value :=
    (Int.zpow_le_iff_le_log (b := 10) (by norm_num) more).mp large
  have positive : 0 < pointOf value + depth := by
    unfold pointOf
    omega
  obtain ⟨count, counted⟩ := Int.eq_ofNat_of_zero_le positive.le
  have shift : pointOf value - count = -(depth : ℤ) := by omega
  refine ⟨count, by omega, by rw [counted]; exact le_refl _, ?_⟩
  unfold decimalBelow Decimal.value
  dsimp only
  rw [shift, zpow_neg, div_inv_eq_mul, whole, Int.floor_intCast, ← zpow_neg]
  have cast : ((places.toNat : ℕ) : ℚ) = places := by
    rw [← Int.cast_natCast, Int.toNat_of_nonneg some_.le]
  rw [cast]
  exact same.symm

/-- A number has a decimal from which it is found again. -/
theorem exists_shortestDecimal {value : ℚ} (double : IsDouble value) (more : 0 < value) :
    ∃ decimal, shortestDecimal value = some decimal ∧ decimal.Finds value := by
  have whole : ∃ places : ℤ, value * 10 ^ ((1074 : ℕ) : ℤ) = places := by
    rcases roundDouble_cases double with ⟨zero, -⟩ | ⟨-, -, made⟩
    · exact absurd zero more.ne'
    · have least : -((1074 : ℕ) : ℤ) ≤ lastPlace value := le_max_right _ _
      obtain ⟨shift, same⟩ := Int.le.dest least
      exact ⟨_, places_of_ten made same⟩
  obtain ⟨places, scaled⟩ := whole
  obtain ⟨count, some_, inside, is⟩ := exists_decimalBelow more scaled
  have fits : roundDouble (decimalBelow value count).value = some value := by
    rw [is]
    exact double
  have made : (decimalWith value count).isSome := by
    unfold decimalWith
    dsimp only
    rw [if_pos fits]
    split
    · rfl
    · rfl
  have found : (shortestDecimal value).isSome := by
    unfold shortestDecimal
    refine List.findSome?_isSome_iff.mpr ⟨count - 1, List.mem_range.mpr ?_, ?_⟩
    · have bound : (pointOf value + 1074).toNat = (pointOf value + (1074 : ℕ)).toNat := rfl
      omega
    · rwa [Nat.sub_add_cancel some_]
  obtain ⟨decimal, shortest⟩ := isSome_iff_exists.mp found
  refine ⟨decimal, shortest, ?_⟩
  obtain ⟨index, -, here⟩ := List.exists_of_findSome?_eq_some shortest
  exact finds_of_decimalWith more (Nat.succ_pos index) here

end Text
