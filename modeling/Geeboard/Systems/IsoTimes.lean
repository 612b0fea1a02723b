/-
This file is about the texts of moments as ISO 8601 has them, and the order of such
texts when they are compared one character after the other.

A year of four digits is written with four, any other with a sign and six. Texts of one
shape are in the order of their moments, because each part has its own width. Texts of
different shapes are in the order of what they begin with, whatever their moments are,
and years before the year nought are in the order of how far before it they are.
-/

import Geeboard.Systems.Calendars
import Mathlib.Data.List.Basic

namespace Systems.IsoTimes

open Calendars List

/-! ### Characters and their places -/

/-- The place of a character of such texts among the others: punctuation is first, then come the
digits, and then the letters. -/
def rank (sign : Char) : Nat :=
  if sign = '-' then 0
  else if sign = ':' then 1
  else if sign = '.' then 2
  else if sign = '+' then 3
  else if sign = 'T' then 14
  else if sign = 'Z' then 15
  else 4 + (sign.toNat - 48)

/-- A text as the places of its characters. -/
def ranks (text : List Char) : List Nat := text.map rank

theorem rank_digitChar {digit : Nat} (small : digit < 10) : rank digit.digitChar = 4 + digit := by
  interval_cases digit <;> rfl

/-- Two lists that begin with parts of one length are compared by these first. -/
theorem append_lt_append_iff {first second : List Nat} (same : first.length = second.length)
    (left right : List Nat) :
    first ++ left < second ++ right ↔ first < second ∨ first = second ∧ left < right := by
  induction first generalizing second with
  | nil =>
    obtain rfl := length_eq_zero_iff.mp same.symm
    simp only [nil_append, true_and]
    exact ⟨.inr, fun either => either.resolve_left (List.lt_irrefl [])⟩
  | cons head first inductionHypothesis =>
    cases second with
    | nil => exact absurd same (Nat.succ_ne_zero _)
    | cons other second =>
      rw [cons_append, cons_append, cons_lt_cons_iff, cons_lt_cons_iff,
        inductionHypothesis (Nat.succ.inj same), cons.injEq]
      constructor
      · rintro (less | ⟨rfl, less | ⟨rfl, less⟩⟩)
        · exact .inl (.inl less)
        · exact .inl (.inr ⟨rfl, less⟩)
        · exact .inr ⟨⟨rfl, rfl⟩, less⟩
      · rintro ((less | ⟨rfl, less⟩) | ⟨⟨rfl, rfl⟩, less⟩)
        · exact .inl less
        · exact .inr ⟨rfl, .inl less⟩
        · exact .inr ⟨rfl, .inr ⟨rfl, less⟩⟩

/-! ### Numbers of a fixed width -/

/-- The last figures of a number, as many as asked for. -/
def figures : Nat → Nat → List Char
  | 0, _ => []
  | width + 1, number => figures width (number / 10) ++ [(number % 10).digitChar]

theorem length_figures (width number : Nat) : (figures width number).length = width := by
  induction width generalizing number with
  | zero => rfl
  | succ width inductionHypothesis =>
    rw [figures, length_append, inductionHypothesis, length_singleton]

theorem length_ranks_figures (width number : Nat) :
    (ranks (figures width number)).length = width := by
  rw [ranks, length_map, length_figures]

theorem ranks_figures_succ (width number : Nat) :
    ranks (figures (width + 1) number) =
      ranks (figures width (number / 10)) ++ [4 + number % 10] := by
  rw [figures, ranks, map_append, map_singleton,
    rank_digitChar (Nat.mod_lt number (by decide)), ranks]

/-- Numbers that have room in a width are in the order of their figures. -/
theorem figures_order {width first second : Nat} (one : first < 10 ^ width)
    (other : second < 10 ^ width) :
    (ranks (figures width first) < ranks (figures width second) ↔ first < second) ∧
      (ranks (figures width first) = ranks (figures width second) ↔ first = second) := by
  induction width generalizing first second with
  | zero =>
    obtain rfl := Nat.lt_one_iff.mp one
    obtain rfl := Nat.lt_one_iff.mp other
    exact ⟨⟨fun less => absurd less (List.lt_irrefl _), fun less => absurd less (Nat.lt_irrefl 0)⟩,
      ⟨fun _ => rfl, fun _ => rfl⟩⟩
  | succ width inductionHypothesis =>
    rw [Nat.pow_succ] at one other
    obtain ⟨less, same⟩ := @inductionHypothesis (first / 10) (second / 10)
      (Nat.div_lt_of_lt_mul (by rwa [Nat.mul_comm])) (Nat.div_lt_of_lt_mul (by rwa [Nat.mul_comm]))
    have long : (ranks (figures width (first / 10))).length =
        (ranks (figures width (second / 10))).length := by
      rw [length_ranks_figures, length_ranks_figures]
    rw [ranks_figures_succ, ranks_figures_succ]
    constructor
    · have bare : ¬([] : List Nat) < [] := List.lt_irrefl []
      rw [append_lt_append_iff long, less, same, cons_lt_cons_iff]
      simp only [bare, and_false, or_false]
      omega
    · constructor
      · intro alike
        obtain ⟨front, last⟩ := append_inj alike long
        have tens := same.mp front
        have ones := (cons.inj last).1
        omega
      · rintro rfl
        rfl

/-! ### Numbers one after the other -/

/-- Numbers, each with its width and what stands after it. -/
def written : List (Nat × Char) → List Nat → List Char
  | (width, sign) :: shape, number :: numbers =>
    figures width number ++ sign :: written shape numbers
  | _, _ => []

/-- Each number has room in its width. -/
def Fits : List (Nat × Char) → List Nat → Prop :=
  List.Forall₂ fun field number => number < 10 ^ field.1

/-- Numbers written in one shape are in the order of their texts. -/
theorem written_order {shape : List (Nat × Char)} {first second : List Nat}
    (one : Fits shape first) (other : Fits shape second) :
    ranks (written shape first) < ranks (written shape second) ↔ first < second := by
  induction one generalizing second with
  | nil =>
    cases other
    rfl
  | @cons field number shape first room _ inductionHypothesis =>
    cases other with
    | @cons _ next _ second nextRoom others =>
      obtain ⟨less, same⟩ := figures_order room nextRoom
      have long : (ranks (figures field.1 number)).length =
          (ranks (figures field.1 next)).length := by
        rw [length_ranks_figures, length_ranks_figures]
      have unfolds (number : Nat) (numbers : List Nat) :
          ranks (written (field :: shape) (number :: numbers)) =
            ranks (figures field.1 number) ++ rank field.2 :: ranks (written shape numbers) := by
        rw [written, ranks, map_append, map_cons, ranks, ranks]
      rw [unfolds, unfolds, append_lt_append_iff long, less, same, cons_lt_cons_iff,
        cons_lt_cons_iff, inductionHypothesis others]
      simp only [Nat.lt_irrefl, true_and, false_or]

/-! ### Moments -/

/-- What is written of a moment after its year: the month, the day, the hour, the minute, the
second and the millisecond. -/
def partsOf (time : Int) : List Nat :=
  [(monthOf (time / 86400000) + 1).toNat, (dayOfMonth (time / 86400000)).toNat,
    (time % 86400000 / 3600000).toNat, (time % 3600000 / 60000).toNat,
    (time % 60000 / 1000).toNat, (time % 1000).toNat]

/-- The year of a moment. -/
def yearAt (time : Int) : Int := yearOf (time / 86400000)

/-- A year that is written with four figures and no sign. -/
def Plain (year : Int) : Prop := 0 ≤ year ∧ year ≤ 9999

instance (year : Int) : Decidable (Plain year) := inferInstanceAs (Decidable (_ ∧ _))

/-- The widths of the parts of a moment's text. -/
def shapeOf (year : Int) : List (Nat × Char) :=
  (if Plain year then 4 else 6, '-') ::
    [(2, '-'), (2, 'T'), (2, ':'), (2, ':'), (2, '.'), (3, 'Z')]

/-- What a year's text begins with. -/
def signOf (year : Int) : List Char :=
  if Plain year then [] else if year < 0 then ['-'] else ['+']

/-- The characters of a moment's text. -/
def isoChars (time : Int) : List Char :=
  signOf (yearAt time) ++ written (shapeOf (yearAt time)) ((yearAt time).natAbs :: partsOf time)

/-- The text of a moment. -/
def isoText (time : Int) : String := String.ofList (isoChars time)

example : isoText 0 = "1970-01-01T00:00:00.000Z" ∧
    isoText 1709210096789 = "2024-02-29T12:34:56.789Z" ∧
    isoText 253402300800000 = "+010000-01-01T00:00:00.000Z" ∧
    isoText (-62167219200001) = "-000001-12-31T23:59:59.999Z" := by decide +kernel

/-- A later day has a later date. -/
theorem date_order {day other : Int} (before : day < other) :
    yearOf day < yearOf other ∨ yearOf day = yearOf other ∧
      (monthOf day < monthOf other ∨
        monthOf day = monthOf other ∧ dayOfMonth day < dayOfMonth other) := by
  obtain ⟨least, most⟩ := marchYear_spec day
  obtain ⟨least', most'⟩ := marchYear_spec other
  obtain ⟨first, last, inMonth, toMonth⟩ := marchMonth_spec day
  obtain ⟨first', last', inMonth', toMonth'⟩ := marchMonth_spec other
  have years : marchYear day ≤ marchYear other := by
    by_contra later
    have := marchStart_mono (Int.not_le.mp later)
    omega
  have months : marchYear day = marchYear other → marchMonth day ≤ marchMonth other := by
    intro same
    by_contra later
    unfold monthStart at inMonth toMonth'
    unfold dayOfYear at inMonth toMonth'
    rw [same] at inMonth
    omega
  have days : marchYear day = marchYear other → marchMonth day = marchMonth other →
      dayOfMonth day < dayOfMonth other := by
    intro sameYear sameMonth
    unfold dayOfMonth dayOfYear
    rw [sameYear, sameMonth]
    omega
  unfold yearOf monthOf
  omega

/-- A month has a number from 1 to 12, and a day one from 1 to 31. -/
theorem date_within (day : Int) : 0 ≤ monthOf day ∧ monthOf day ≤ 11 ∧
    1 ≤ dayOfMonth day ∧ dayOfMonth day ≤ 31 := by
  obtain ⟨first, last, inMonth, toMonth⟩ := marchMonth_spec day
  unfold monthStart at inMonth toMonth
  unfold monthOf dayOfMonth monthStart
  omega

/-- The hours, minutes, seconds and milliseconds of a time, from how many of each there have
been. -/
theorem clock_counts (time : Int) :
    time % 86400000 / 3600000 = time / 3600000 - 24 * (time / 86400000) ∧
      time % 3600000 / 60000 = time / 60000 - 60 * (time / 3600000) ∧
        time % 60000 / 1000 = time / 1000 - 60 * (time / 60000) ∧
          time % 1000 = time - 1000 * (time / 1000) := by
  refine ⟨?_, ?_, ?_, ?_⟩
  · omega
  · omega
  · omega
  · omega

/-- A later time of one day is later by its hour, its minute, its second or its millisecond. -/
theorem clock_order {time later : Int} (day : time / 86400000 = later / 86400000)
    (before : time < later) :
    time % 86400000 / 3600000 < later % 86400000 / 3600000 ∨
      time % 86400000 / 3600000 = later % 86400000 / 3600000 ∧
        (time % 3600000 / 60000 < later % 3600000 / 60000 ∨
          time % 3600000 / 60000 = later % 3600000 / 60000 ∧
            (time % 60000 / 1000 < later % 60000 / 1000 ∨
              time % 60000 / 1000 = later % 60000 / 1000 ∧ time % 1000 < later % 1000)) := by
  obtain ⟨hour, minute, second, rest⟩ := clock_counts time
  obtain ⟨hour', minute', second', rest'⟩ := clock_counts later
  have upTo := le_of_lt before
  have hours : time / 3600000 ≤ later / 3600000 := Int.ediv_le_ediv (by decide) upTo
  have minutes : time / 60000 ≤ later / 60000 := Int.ediv_le_ediv (by decide) upTo
  have seconds : time / 1000 ≤ later / 1000 := Int.ediv_le_ediv (by decide) upTo
  rw [hour, hour', minute, minute', second, second', rest, rest', day]
  generalize time / 3600000 = hours at *
  generalize later / 3600000 = hours' at *
  generalize time / 60000 = minutes at *
  generalize later / 60000 = minutes' at *
  generalize time / 1000 = seconds at *
  generalize later / 1000 = seconds' at *
  clear hour hour' minute minute' second second' rest rest' day
  omega

/-- A later moment has a later year, or later parts in the same year. -/
theorem parts_order {time later : Int} (before : time < later) :
    yearAt time < yearAt later ∨
      yearAt time = yearAt later ∧ partsOf time < partsOf later := by
  have days : time / 86400000 < later / 86400000 ∨ time / 86400000 = later / 86400000 :=
    lt_or_eq_of_le (Int.ediv_le_ediv (by decide) (le_of_lt before))
  unfold partsOf yearAt
  simp only [cons_lt_cons_iff]
  rcases days with days | days
  · obtain ⟨month, _, day, _⟩ := date_within (time / 86400000)
    obtain ⟨month', _, day', _⟩ := date_within (later / 86400000)
    rcases date_order days with year | ⟨year, months | ⟨months, dates⟩⟩
    · exact .inl year
    · exact .inr ⟨year, .inl (Int.toNat_lt_toNat (by omega) |>.mpr (by omega))⟩
    · rw [months]
      exact .inr ⟨year, .inr ⟨rfl, .inl (Int.toNat_lt_toNat (by omega) |>.mpr dates)⟩⟩
  · have clock := clock_order days before
    have hour := Int.ediv_nonneg (Int.emod_nonneg time (by decide : (86400000 : Int) ≠ 0))
      (by decide : (0 : Int) ≤ 3600000)
    have minute := Int.ediv_nonneg (Int.emod_nonneg time (by decide : (3600000 : Int) ≠ 0))
      (by decide : (0 : Int) ≤ 60000)
    have second := Int.ediv_nonneg (Int.emod_nonneg time (by decide : (60000 : Int) ≠ 0))
      (by decide : (0 : Int) ≤ 1000)
    have rest := Int.emod_nonneg time (by decide : (1000 : Int) ≠ 0)
    rw [days]
    refine .inr ⟨rfl, .inr ⟨rfl, .inr ⟨rfl, ?_⟩⟩⟩
    rcases clock with hours | ⟨hours, minutes | ⟨minutes, seconds | ⟨seconds, rests⟩⟩⟩
    · exact .inl (Int.toNat_lt_toNat (lt_of_le_of_lt hour hours) |>.mpr hours)
    · rw [hours]
      exact .inr ⟨rfl, .inl (Int.toNat_lt_toNat (lt_of_le_of_lt minute minutes) |>.mpr minutes)⟩
    · rw [hours, minutes]
      exact .inr ⟨rfl, .inr ⟨rfl,
        .inl (Int.toNat_lt_toNat (lt_of_le_of_lt second seconds) |>.mpr seconds)⟩⟩
    · rw [hours, minutes, seconds]
      exact .inr ⟨rfl, .inr ⟨rfl, .inr ⟨rfl,
        .inl (Int.toNat_lt_toNat (lt_of_le_of_lt rest rests) |>.mpr rests)⟩⟩⟩

/-- The characters that texts of moments are written with. -/
def SIGNS : List Char := "-:.+0123456789TZ".toList

theorem figures_signs {width number : Nat} {char : Char} (member : char ∈ figures width number) :
    char ∈ SIGNS := by
  induction width generalizing number with
  | zero => exact absurd member not_mem_nil
  | succ width inductionHypothesis =>
    rcases mem_append.mp member with early | last
    · exact inductionHypothesis early
    · rw [mem_singleton.mp last]
      have small : number % 10 < 10 := Nat.mod_lt number (by decide)
      generalize number % 10 = digit at small
      interval_cases digit <;> decide

theorem written_signs {shape : List (Nat × Char)} (plain : ∀ field ∈ shape, field.2 ∈ SIGNS)
    {numbers : List Nat} {char : Char} (member : char ∈ written shape numbers) : char ∈ SIGNS := by
  induction shape generalizing numbers with
  | nil => exact absurd member not_mem_nil
  | cons field shape inductionHypothesis =>
    cases numbers with
    | nil => exact absurd member not_mem_nil
    | cons number numbers =>
      rcases mem_append.mp member with early | later
      · exact figures_signs early
      · rcases mem_cons.mp later with sign | rest
        · exact sign ▸ plain field mem_cons_self
        · exact inductionHypothesis
            (fun other among => plain other (mem_cons_of_mem field among)) rest

theorem isoChars_signs {time : Int} {char : Char} (member : char ∈ isoChars time) :
    char ∈ SIGNS := by
  rcases mem_append.mp member with sign | rest
  · unfold signOf at sign
    split at sign
    · exact absurd sign not_mem_nil
    · split at sign
      · rw [mem_singleton.mp sign]
        decide
      · rw [mem_singleton.mp sign]
        decide
  · refine written_signs ?_ rest
    unfold shapeOf
    split <;> decide

/-! ### The order of the texts -/

/-- A moment whose year has room in six figures. -/
def Dated (time : Int) : Prop := (yearAt time).natAbs < 1000000

/-- The text of an earlier moment stands after that of a later one: the later one has a sign and
the earlier one has none, or both are in years before the year nought. -/
def Astray (time later : Int) : Prop :=
  time < later ∧ (Plain (yearAt time) ∧ 9999 < yearAt later ∨
    yearAt time < yearAt later ∧ yearAt later < 0)

instance (time later : Int) : Decidable (Astray time later) :=
  inferInstanceAs (Decidable (_ ∧ (_ ∨ _)))

variable {time later : Int}

theorem fits_parts (dated : Dated time) :
    Fits (shapeOf (yearAt time)) ((yearAt time).natAbs :: partsOf time) := by
  obtain ⟨-, month, -, day⟩ := date_within (time / 86400000)
  have hour : time % 86400000 / 3600000 < 24 := by omega
  have minute : time % 3600000 / 60000 < 60 := by omega
  have second : time % 60000 / 1000 < 60 := by omega
  have rest : time % 1000 < 1000 := by omega
  have year : (yearAt time).natAbs < 10 ^ (if Plain (yearAt time) then 4 else 6) := by
    split
    · next plain =>
      obtain ⟨least, most⟩ := plain
      omega
    · exact dated
  refine .cons year (.cons ?_ (.cons ?_ (.cons ?_ (.cons ?_ (.cons ?_ (.cons ?_ .nil))))))
  · show (monthOf (time / 86400000) + 1).toNat < 10 ^ 2
    clear year hour minute second rest
    omega
  · show (dayOfMonth (time / 86400000)).toNat < 10 ^ 2
    clear year hour minute second rest
    omega
  · exact (Int.toNat_lt_of_ne_zero (by decide)).mpr (lt_trans hour (by decide))
  · exact (Int.toNat_lt_of_ne_zero (by decide)).mpr (lt_trans minute (by decide))
  · exact (Int.toNat_lt_of_ne_zero (by decide)).mpr (lt_trans second (by decide))
  · exact (Int.toNat_lt_of_ne_zero (by decide)).mpr rest

/-- Two texts of one shape and with one sign are in the order of their numbers. -/
theorem isoChars_lt_iff (dated : Dated time) (datedLater : Dated later)
    (shape : shapeOf (yearAt time) = shapeOf (yearAt later))
    (sign : signOf (yearAt time) = signOf (yearAt later)) :
    ranks (isoChars time) < ranks (isoChars later) ↔
      (yearAt time).natAbs :: partsOf time < (yearAt later).natAbs :: partsOf later := by
  have one := fits_parts dated
  have other := fits_parts datedLater
  rw [shape] at one
  rw [isoChars, isoChars, sign, shape, ranks, ranks, map_append, map_append,
    append_lt_append_iff rfl]
  have order := written_order one other
  unfold ranks at order
  rw [order]
  exact ⟨fun either => either.elim (fun less => absurd less (List.lt_irrefl _)) And.right,
    fun less => .inr ⟨rfl, less⟩⟩

/-- A text without a sign begins with a digit. -/
theorem isoChars_plain (plain : Plain (yearAt time)) :
    ∃ digit rest, ranks (isoChars time) = (4 + digit) :: rest := by
  have places : isoChars time = figures 4 (yearAt time).natAbs ++
      '-' :: written (shapeOf (yearAt time)).tail (partsOf time) := by
    rw [isoChars, signOf, if_pos plain, shapeOf, if_pos plain]
    rfl
  rw [places, ranks, map_append]
  simp only [figures, nil_append, cons_append, map_cons]
  rw [rank_digitChar (Nat.mod_lt _ (by decide))]
  exact ⟨_, _, rfl⟩

/-- A text with a sign begins with it. -/
theorem isoChars_signed (signed : ¬ Plain (yearAt time)) :
    ∃ rest, ranks (isoChars time) = (if yearAt time < 0 then 0 else 3) :: rest := by
  rw [isoChars, signOf, if_neg signed]
  split
  · exact ⟨_, rfl⟩
  · exact ⟨_, rfl⟩

/-- The text of an earlier moment stands first, except where it is astray. -/
theorem isoChars_order (dated : Dated time) (datedLater : Dated later) (before : time < later) :
    if Astray time later then ranks (isoChars later) < ranks (isoChars time)
    else ranks (isoChars time) < ranks (isoChars later) := by
  have order := parts_order before
  by_cases plain : Plain (yearAt time)
  · obtain ⟨digit, rest, begins⟩ := isoChars_plain plain
    obtain ⟨least, most⟩ := plain
    by_cases plainLater : Plain (yearAt later)
    · rw [if_neg (by unfold Astray; unfold Plain at plainLater; omega),
        isoChars_lt_iff dated datedLater (by rw [shapeOf, shapeOf, if_pos ⟨least, most⟩,
          if_pos plainLater]) (by rw [signOf, signOf, if_pos ⟨least, most⟩, if_pos plainLater]),
        cons_lt_cons_iff]
      rcases order with year | ⟨year, parts⟩
      · exact .inl (by omega)
      · exact .inr ⟨by rw [year], parts⟩
    · have past : 9999 < yearAt later := by
        unfold Plain at plainLater
        omega
      obtain ⟨restLater, beginsLater⟩ := isoChars_signed plainLater
      rw [if_neg (by omega)] at beginsLater
      rw [if_pos ⟨before, .inl ⟨⟨least, most⟩, past⟩⟩, begins, beginsLater, cons_lt_cons_iff]
      exact .inl (by omega)
  · obtain ⟨rest, begins⟩ := isoChars_signed plain
    by_cases early : yearAt time < 0
    · rw [if_pos early] at begins
      by_cases earlyLater : yearAt later < 0
      · have shape (year : Int) (below : year < 0) : ¬ Plain year :=
          fun plain => absurd plain.1 (Int.not_le.mpr below)
        have alike : shapeOf (yearAt time) = shapeOf (yearAt later) ∧
            signOf (yearAt time) = signOf (yearAt later) := by
          unfold shapeOf signOf
          rw [if_neg plain, if_neg (shape _ earlyLater), if_neg plain,
            if_neg (shape _ earlyLater), if_pos early, if_pos earlyLater]
          exact ⟨rfl, rfl⟩
        rcases order with year | ⟨year, parts⟩
        · rw [if_pos ⟨before, .inr ⟨year, earlyLater⟩⟩, isoChars_lt_iff datedLater dated
            alike.1.symm alike.2.symm, cons_lt_cons_iff]
          exact .inl (by omega)
        · rw [if_neg (by rintro ⟨-, ⟨again, -⟩ | ⟨less, -⟩⟩; exacts [plain again, by omega]),
            isoChars_lt_iff dated datedLater alike.1 alike.2, cons_lt_cons_iff]
          exact .inr ⟨by rw [year], parts⟩
      · rw [if_neg (by rintro ⟨-, ⟨again, -⟩ | ⟨-, less⟩⟩; exacts [plain again, earlyLater less]),
          begins]
        by_cases plainLater : Plain (yearAt later)
        · obtain ⟨digit, restLater, beginsLater⟩ := isoChars_plain plainLater
          rw [beginsLater, cons_lt_cons_iff]
          exact .inl (by omega)
        · obtain ⟨restLater, beginsLater⟩ := isoChars_signed plainLater
          rw [beginsLater, if_neg earlyLater, cons_lt_cons_iff]
          exact .inl (by decide)
    · have past : 9999 < yearAt time := by
        unfold Plain at plain
        omega
      have plainLater : ¬ Plain (yearAt later) := by
        rintro ⟨-, most⟩
        omega
      have lateLater : ¬ yearAt later < 0 := by omega
      have alike : shapeOf (yearAt time) = shapeOf (yearAt later) ∧
          signOf (yearAt time) = signOf (yearAt later) := by
        unfold shapeOf signOf
        rw [if_neg plain, if_neg plainLater, if_neg plain, if_neg plainLater, if_neg early,
          if_neg lateLater]
        exact ⟨rfl, rfl⟩
      rw [if_neg (by rintro ⟨-, ⟨again, -⟩ | ⟨-, less⟩⟩; exacts [plain again, lateLater less]),
        isoChars_lt_iff dated datedLater alike.1 alike.2, cons_lt_cons_iff]
      rcases order with year | ⟨year, parts⟩
      · exact .inl (by omega)
      · exact .inr ⟨by rw [year], parts⟩

/-- Which of two texts stands first. -/
theorem ranks_lt_iff (dated : Dated time) (datedLater : Dated later) :
    ranks (isoChars time) < ranks (isoChars later) ↔
      time < later ∧ ¬ Astray time later ∨ Astray later time := by
  rcases Int.lt_trichotomy time later with before | rfl | after
  · have order := isoChars_order dated datedLater before
    have back : ¬ Astray later time := fun astray => absurd astray.1 (Int.lt_asymm before)
    split at order
    · next astray =>
      exact ⟨fun less => absurd less (List.lt_asymm order),
        fun either => either.elim (fun right => absurd astray right.2) (absurd · back)⟩
    · next right =>
      exact ⟨fun _ => .inl ⟨before, right⟩, fun _ => order⟩
  · exact ⟨fun less => absurd less (List.lt_irrefl _), fun either => either.elim
      (fun right => absurd right.1 (Int.lt_irrefl time))
      (fun astray => absurd astray.1 (Int.lt_irrefl time))⟩
  · have order := isoChars_order datedLater dated after
    split at order
    · next astray =>
      exact ⟨fun _ => .inr astray, fun _ => order⟩
    · next right =>
      exact ⟨fun less => absurd less (List.lt_asymm order), fun either => either.elim
        (fun forth => absurd forth.1 (Int.lt_asymm after)) (absurd · right)⟩

/-- Moments whose texts are one are one. -/
theorem eq_of_isoText_eq (dated : Dated time) (datedLater : Dated later)
    (same : isoText time = isoText later) : time = later := by
  have chars : isoChars time = isoChars later := String.ofList_injective same
  rcases Int.lt_trichotomy time later with before | alike | after
  · have order := isoChars_order dated datedLater before
    rw [chars] at order
    split at order <;> exact absurd order (List.lt_irrefl _)
  · exact alike
  · have order := isoChars_order datedLater dated after
    rw [chars] at order
    split at order <;> exact absurd order (List.lt_irrefl _)

/-- The moments that a date can hold have years with room in six figures. -/
theorem dated_of_within (least : -8640000000000000 ≤ time) (most : time ≤ 8640000000000000) :
    Dated time := by
  obtain ⟨low, high⟩ := marchYear_spec (time / 86400000)
  have days : -100000000 ≤ time / 86400000 ∧ time / 86400000 ≤ 100000000 := by omega
  unfold marchStart EPOCH at low high
  unfold Dated yearAt yearOf
  generalize marchYear (time / 86400000) = year at *
  generalize time / 86400000 = day at *
  split <;> omega

end Systems.IsoTimes
