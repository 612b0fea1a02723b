/-
This file reads the cron text of a scheduled task and finds the next minute it
names.

A text is five fields, for minutes, hours, days of the month, months and days of
the week; each is a list of numbers, ranges and steps. The search walks from the
first minute after a moment to the one a year later, and over what cannot match by
whole months, days and hours. It passes over no minute that the text names. The
times here are whole numbers, with no last one.
-/

import Geeboard.Systems.Calendars
import Geeboard.Text.Words

namespace Geeboard.Scheduling

open Systems.Calendars
open Text

/-! ### Cron texts -/

structure Cron where
  minute : List Nat
  hour : List Nat
  dom : List Nat
  month : List Nat
  dow : List Nat
  domRestricted : Bool
  dowRestricted : Bool
  deriving DecidableEq, Repr

section Reading

-- What the language's `Number` makes of a text, when that is an integer.
variable (number : List Char → Option Int)

/-- The numbers that a part of a field stands for. -/
def parsePart (range : Nat × Nat) (part : List Char) : Option (List Nat) := do
  let pieces := part.splitOn '/'
  let spec := pieces.headD []
  let stepRaw := (pieces.drop 1).headD []
  let step ← if stepRaw = [] then some 1 else number stepRaw
  if step < 1 then none
  else if spec = ['*'] then
    some (List.range' range.1 ((range.2 - range.1) / step.toNat + 1) step.toNat)
  else do
    let bounds := spec.splitOn '-'
    let start ← number (bounds.headD [])
    let stop ← match bounds with
      | _ :: last :: _ => number last
      | _ => if stepRaw = [] then some start else some (range.2 : Int)
    if start < range.1 ∨ (range.2 : Int) < stop ∨ stop < start then none
    else some (List.range' start.toNat ((stop - start).toNat / step.toNat + 1) step.toNat)

def parseField (field : List Char) (range : Nat × Nat) : Option (List Nat) :=
  ((field.splitOn ',').mapM (parsePart number range)).map List.flatten

/-- A cron text read, when it is one. -/
def parseCron (expression : List Char) : Option Cron :=
  match wordsOf expression with
  | [minute, hour, dom, month, dow] => do
    let minutes ← parseField number minute (0, 59)
    let hours ← parseField number hour (0, 23)
    let doms ← parseField number dom (1, 31)
    let months ← parseField number month (1, 12)
    let dows ← parseField number dow (0, 6)
    pure ⟨minutes, hours, doms, months, dows, dom != ['*'], dow != ['*']⟩
  | _ => none

end Reading

/-! ### Times and what names them -/

def dayOf (time : Int) : Int := time / 86400000

def timeInDay (time : Int) : Int := time % 86400000

def hoursOf (time : Int) : Int := timeInDay time / 3600000

def minutesOf (time : Int) : Int := time % 3600000 / 60000

/-- Two restrictions of the day are a choice between them. -/
def dayMatches (cron : Cron) (day : Int) : Bool :=
  let domOk := cron.dom.contains (dayOfMonth day).toNat
  let dowOk := cron.dow.contains (weekday day).toNat
  if cron.domRestricted && cron.dowRestricted then domOk || dowOk
  else if cron.domRestricted then domOk
  else if cron.dowRestricted then dowOk
  else true

/-- Whether the day of a time is one that a cron text names: with both day fields restricted one
of them does, and with one of them restricted that one. -/
def NamesDay (cron : Cron) (time : Int) : Prop :=
  (cron.domRestricted = true → cron.dowRestricted = true →
    (dayOfMonth (dayOf time)).toNat ∈ cron.dom ∨ (weekday (dayOf time)).toNat ∈ cron.dow) ∧
  (cron.domRestricted = true → cron.dowRestricted = false →
    (dayOfMonth (dayOf time)).toNat ∈ cron.dom) ∧
  (cron.domRestricted = false → cron.dowRestricted = true →
    (weekday (dayOf time)).toNat ∈ cron.dow)

/-- Whether a time is a whole minute that a cron text names. -/
structure Names (cron : Cron) (time : Int) : Prop where
  whole : time % 60000 = 0
  month : (monthOf (dayOf time) + 1).toNat ∈ cron.month
  day : NamesDay cron time
  hour : (hoursOf time).toNat ∈ cron.hour
  minute : (minutesOf time).toNat ∈ cron.minute

/-! ### The next minute -/

/-- Where the walk goes on from a time that is not named, and nothing where the time is named. -/
def onward (cron : Cron) (time : Int) : Option Int :=
  if !cron.month.contains (monthOf (dayOf time) + 1).toNat then
    some (makeDay (yearOf (dayOf time)) (monthOf (dayOf time) + 1) 1 * 86400000)
  else if !dayMatches cron (dayOf time) then some ((dayOf time + 1) * 86400000)
  else if !cron.hour.contains (hoursOf time).toNat then some ((time / 3600000 + 1) * 3600000)
  else if !cron.minute.contains (minutesOf time).toNat then some (time + 60000)
  else none

/-- The walk to the next time that is named, up to a limit. -/
def search (cron : Cron) (limit : Int) : Nat → Int → Option Int
  | 0, _ => none
  | steps + 1, time =>
    if limit < time then none
    else
      match onward cron time with
      | none => some time
      | some next => search cron limit steps next

/-- The milliseconds of a year and a day. -/
def YEAR : Int := 366 * 24 * 3600000

section Next

variable (number : List Char → Option Int)

/-- The next time a text names, strictly after a moment, when there is one within a year. The walk
takes a minute with each step at least. -/
def nextRun (expression : List Char) (from_ : Nat) : Option Nat :=
  match parseCron number expression with
  | none => none
  | some cron =>
    (search cron (from_ + YEAR) (366 * 1440 + 1) (((from_ : Int) / 60000 + 1) * 60000)).map
      Int.toNat

/-- The time is a whole minute that the text names. -/
def IsMinuteOf (expression : List Char) (time : Nat) : Prop :=
  ∃ cron, parseCron number expression = some cron ∧ Names cron time

end Next

/-! ### What is passed over, and what is found -/

section Found

variable {cron : Cron} {time next limit found : Int} {steps : Nat}

theorem dayMatches_iff (cron : Cron) (time : Int) :
    dayMatches cron (dayOf time) = true ↔ NamesDay cron time := by
  unfold dayMatches NamesDay
  cases cron.domRestricted <;> cases cron.dowRestricted <;>
    simp only [Bool.and_self, Bool.and_true, Bool.and_false, Bool.false_eq_true, if_true, if_false,
      Bool.or_eq_true, List.contains_iff_mem, true_implies, false_implies, reduceCtorEq, and_true,
      true_and]

/-- A time is named when the walk does not go on from it. -/
theorem names_of_onward (whole : time % 60000 = 0) (stays : onward cron time = none) :
    Names cron time := by
  unfold onward at stays
  split_ifs at stays with month day hour minute
  simp only [Bool.not_eq_true', Bool.not_eq_false, List.contains_iff_mem] at month day hour minute
  exact ⟨whole, month, (dayMatches_iff cron time).mp day, hour, minute⟩

/-- The walk goes on to a later minute, and passes over none that is named. -/
theorem onward_passes (whole : time % 60000 = 0) (goes : onward cron time = some next) :
    time + 60000 ≤ next ∧ next % 60000 = 0 ∧
      ∀ other, time ≤ other → other < next → ¬Names cron other := by
  unfold onward at goes
  split_ifs at goes with month day hour minute <;> obtain rfl := Option.some.inj goes
  · rw [Bool.not_eq_true'] at month
    have later := lt_makeDay_next (dayOf time)
    refine ⟨by unfold dayOf at *; omega, by omega, fun other from_ before names => ?_⟩
    have same : monthOf (dayOf other) = monthOf (dayOf time) := by
      refine monthOf_eq ?_ ?_
      · unfold dayOf
        omega
      · unfold dayOf at before ⊢
        omega
    have here := names.month
    rw [same, ← List.contains_iff_mem, month] at here
    exact Bool.false_ne_true here
  · rw [Bool.not_eq_true'] at day
    refine ⟨by unfold dayOf; omega, by omega, fun other from_ before names => ?_⟩
    have same : dayOf other = dayOf time := by
      unfold dayOf at before ⊢
      omega
    have here := (dayMatches_iff cron other).mpr names.day
    rw [same, day] at here
    exact Bool.false_ne_true here
  · rw [Bool.not_eq_true'] at hour
    refine ⟨by omega, by omega, fun other from_ before names => ?_⟩
    have same : hoursOf other = hoursOf time := by
      unfold hoursOf timeInDay
      omega
    have here := names.hour
    rw [same, ← List.contains_iff_mem, hour] at here
    exact Bool.false_ne_true here
  · rw [Bool.not_eq_true'] at minute
    refine ⟨le_rfl, by omega, fun other from_ before names => ?_⟩
    have same : minutesOf other = minutesOf time := by
      have := names.whole
      unfold minutesOf
      omega
    have here := names.minute
    rw [same, ← List.contains_iff_mem, minute] at here
    exact Bool.false_ne_true here

/-- What the walk finds is the first named time from where it began, and not past the limit. -/
theorem search_found (whole : time % 60000 = 0) (search_ : search cron limit steps time = some found) :
    time ≤ found ∧ found ≤ limit ∧ Names cron found ∧
      ∀ other, time ≤ other → other < found → ¬Names cron other := by
  induction steps generalizing time with
  | zero => cases search_
  | succ steps inductionHypothesis =>
    unfold search at search_
    split at search_
    · cases search_
    · rename_i within
      split at search_
      · rename_i stays
        obtain rfl := Option.some.inj search_
        exact ⟨le_rfl, not_lt.mp within, names_of_onward whole stays,
          fun other from_ before => absurd from_ (not_le.mpr before)⟩
      · rename_i next goes
        obtain ⟨ahead, minute, passes⟩ := onward_passes whole goes
        obtain ⟨later, most, names, least⟩ := inductionHypothesis minute search_
        refine ⟨by omega, most, names, fun other from_ before => ?_⟩
        by_cases behind : other < next
        · exact passes other from_ behind
        · exact least other (not_lt.mp behind) before

/-- When the walk finds nothing, with steps enough, no time up to the limit is named. -/
theorem search_none (whole : time % 60000 = 0) (enough : limit - time < 60000 * steps)
    (search_ : search cron limit steps time = none) :
    ∀ other, time ≤ other → other ≤ limit → ¬Names cron other := by
  induction steps generalizing time with
  | zero =>
    intro other from_ most
    omega
  | succ steps inductionHypothesis =>
    unfold search at search_
    intro other from_ most
    split at search_
    · omega
    · split at search_
      · cases search_
      · rename_i next goes
        obtain ⟨ahead, minute, passes⟩ := onward_passes whole goes
        by_cases behind : other < next
        · exact passes other from_ behind
        · exact inductionHypothesis minute (by push_cast at enough; omega) search_ other
            (not_lt.mp behind) most

variable {number : List Char → Option Int} {expression : List Char} {from_ found_ : Nat}

theorem nextRun_search (next : nextRun number expression from_ = some found_) :
    ∃ cron, parseCron number expression = some cron ∧ (from_ : Int) < found_ ∧
      Names cron found_ := by
  unfold nextRun at next
  split at next
  · cases next
  · rename_i cron read
    obtain ⟨time, search_, rfl⟩ := Option.map_eq_some_iff.mp next
    obtain ⟨ahead, -, names, -⟩ := search_found (by omega) search_
    have same : (time.toNat : Int) = time := by omega
    exact ⟨cron, read, by omega, same.symm ▸ names⟩

theorem nextRun_later (next : nextRun number expression from_ = some found_) : from_ < found_ := by
  obtain ⟨cron, -, later, -⟩ := nextRun_search next
  exact Int.ofNat_lt.mp later

/-- The time found is a minute of the text. -/
theorem nextRun_isMinuteOf (next : nextRun number expression from_ = some found_) :
    IsMinuteOf number expression found_ := by
  obtain ⟨cron, read, -, names⟩ := nextRun_search next
  exact ⟨cron, read, names⟩

end Found

end Geeboard.Scheduling
