/-
This file is about the search for the next minute of a cron text, at any moment a date
can hold.

A moment is a number of milliseconds before or after the start of 1970, and there is a
first and a last that a date can hold; what is set past them is no moment, and no
comparison with it holds. The search jumps by months, days, hours and minutes and
passes over nothing that the text names, so that what it finds is the next, as long as
the end of the year it looks at is a moment.
-/

import Geeboard.Scheduling.CronGrammar

namespace Geeboard.Scheduling.Moments

open Systems.Calendars List Option
open Text (wholeNumber)

/-! ### Moments -/

/-- The last moment that a date can hold. -/
def MAX_TIME : Int := 8640000000000000

/-- A date that holds a moment, in milliseconds. -/
structure Moment where
  time : Int
  least : -MAX_TIME ≤ time
  most : time ≤ MAX_TIME

/-- A time where it is a moment, and else no number. -/
def timeClip (time : Int) : Option Int :=
  if -MAX_TIME ≤ time ∧ time ≤ MAX_TIME then some time else none

def secondsOf (time : Int) : Int := time % 60000 / 1000

def makeTime (hour minute second millisecond : Int) : Int :=
  hour * 3600000 + minute * 60000 + second * 1000 + millisecond

def makeDate (day time : Int) : Int := day * 86400000 + time

def setUTCSeconds (time second millisecond : Int) : Option Int :=
  timeClip (makeDate (dayOf time) (makeTime (hoursOf time) (minutesOf time) second millisecond))

def setUTCMinutes (time minute second millisecond : Int) : Option Int :=
  timeClip (makeDate (dayOf time) (makeTime (hoursOf time) minute second millisecond))

def setUTCHours (time hour minute second millisecond : Int) : Option Int :=
  timeClip (makeDate (dayOf time) (makeTime hour minute second millisecond))

def setUTCDate (time date : Int) : Option Int :=
  timeClip (makeDate (makeDay (yearOf (dayOf time)) (monthOf (dayOf time)) date) (timeInDay time))

def setUTCMonth (time month date : Int) : Option Int :=
  timeClip (makeDate (makeDay (yearOf (dayOf time)) month date) (timeInDay time))

/-! ### The search -/

/-- One turn of the search: where it goes on from a time that is not named, and nothing where
the time is named. -/
def turn (cron : Cron) (time : Int) : Option (Option Int) :=
  if !cron.month.contains (monthOf (dayOf time) + 1).toNat then
    some ((setUTCMonth time (monthOf (dayOf time) + 1) 1).bind fun next => setUTCHours next 0 0 0 0)
  else if !dayMatches cron (dayOf time) then
    some ((setUTCDate time (dayOfMonth (dayOf time) + 1)).bind fun next => setUTCHours next 0 0 0 0)
  else if !cron.hour.contains (hoursOf time).toNat then
    some (setUTCHours time (hoursOf time + 1) 0 0 0)
  else if !cron.minute.contains (minutesOf time).toNat then
    some (setUTCMinutes time (minutesOf time + 1) 0 0)
  else none

/-- The search, of so many turns at most. A time or a limit that is no moment ends it. -/
def search (cron : Cron) (limit : Option Int) : Nat → Option Int → Option (Option Int)
  | turns, time =>
    match time, limit with
    | some now, some last =>
      if now ≤ last then
        match turn cron now with
        | none => some (some now)
        | some next =>
          match turns with
          | 0 => none
          | turns + 1 => search cron limit turns next
      else some none
    | _, _ => some none

/-- The next time a text names, strictly after a moment, when there is one within a year. The outer
`none` would stand for a search that takes more turns than there are minutes in a year. -/
def nextRun (expression : List Char) (from_ : Moment) : Option (Option Int) :=
  match parseCron wholeNumber expression with
  | none => some none
  | some cron =>
    let start := (setUTCSeconds from_.time 0 0).bind fun whole =>
      setUTCMinutes whole (minutesOf whole + 1) (secondsOf whole) (whole % 1000)
    search cron (timeClip (from_.time + YEAR)) (366 * 1440) start

/-! ### What the search looks for -/

/-- The moments after a moment, of the year and a day after it. -/
def Within (from_ time : Int) : Prop := from_ < time ∧ time ≤ from_ + YEAR ∧ time ≤ MAX_TIME

/-- What the answer should be: the least named minute of the year, and none where there is none. -/
def IsNext (cron : Cron) (from_ : Int) : Option Int → Prop
  | some found => Within from_ found ∧ Names cron found ∧
      ∀ time, from_ < time → time < found → ¬Names cron time
  | none => ∀ time, Within from_ time → ¬Names cron time

/-- The search ends, with what it looks for. -/
def Right (expression : List Char) (cron : Cron) (from_ : Moment) : Prop :=
  ∃ answer, nextRun expression from_ = some answer ∧ IsNext cron from_.time answer

/-! ### One turn -/

theorem timeClip_eq_some {time kept : Int} (clips : timeClip time = some kept) :
    kept = time ∧ time ≤ MAX_TIME := by
  unfold timeClip at clips
  split at clips
  · next within => exact ⟨(some.inj clips).symm, within.2⟩
  · cases clips

theorem timeClip_eq_none {time : Int} (least : -MAX_TIME ≤ time) (clips : timeClip time = none) :
    MAX_TIME < time := by
  unfold timeClip at clips
  split at clips
  · cases clips
  · next past => omega

theorem timeClip_of_within {time : Int} (least : -MAX_TIME ≤ time) (most : time ≤ MAX_TIME) :
    timeClip time = some time :=
  if_pos ⟨least, most⟩

/-- The search stays where the walk without a last moment does. -/
theorem onward_of_turn {cron : Cron} {time : Int} (stays : turn cron time = none) :
    onward cron time = none := by
  unfold turn at stays
  unfold onward
  split_ifs at stays with month day hour minute
  rw [if_neg month, if_neg day, if_neg hour, if_neg minute]

/-- A time the search may stand at: the one it starts from, the first of a day, or one on a day
that is named. -/
def Stands (cron : Cron) (start time : Int) : Prop :=
  time = start ∨ timeInDay time = 0 ∨
    (cron.month.contains (monthOf (dayOf time) + 1).toNat = true ∧ dayMatches cron (dayOf time) = true)

/-- What a turn does that goes on: nothing it passes over is named, and it goes on to a whole
minute after. -/
structure GoesOn (cron : Cron) (start time : Int) (next : Option Int) : Prop where
  passes : ∀ other, time ≤ other → other ≤ MAX_TIME → (∀ found, next = some found → other < found) →
    ¬Names cron other
  ahead : ∀ found, next = some found →
    time + 60000 ≤ found ∧ found ≤ MAX_TIME ∧ found % 60000 = 0 ∧ Stands cron start found

section Turns

variable {cron : Cron} {start time : Int}

/-- A jump to a time goes on, when nothing before that time is named. -/
theorem goesOn_of_clip {past : Int} (least : -MAX_TIME ≤ time) (after : time + 60000 ≤ past)
    (whole : past % 60000 = 0)
    (unnamed : ∀ other, time ≤ other → other < past → ¬Names cron other)
    (stands : Stands cron start past) : GoesOn cron start time (timeClip past) := by
  constructor
  · intro other from_ most before
    refine unnamed other from_ ?_
    cases clips : timeClip past with
    | none =>
      have := timeClip_eq_none (by omega) clips
      omega
    | some kept =>
      rw [← (timeClip_eq_some clips).1]
      exact before kept clips
  · intro found clips
    obtain ⟨rfl, most⟩ := timeClip_eq_some clips
    exact ⟨after, most, whole, stands⟩

/-- A jump within a day that is named goes on, when nothing before it is named. -/
theorem goesOn_within {past : Int} (whole : time % 60000 = 0) (least : -MAX_TIME ≤ time)
    (goes : onward cron time = some past) (near : past ≤ (dayOf time + 1) * 86400000)
    (month : cron.month.contains (monthOf (dayOf time) + 1).toNat = true)
    (day : dayMatches cron (dayOf time) = true) : GoesOn cron start time (timeClip past) := by
  obtain ⟨after, minute, unnamed⟩ := onward_passes whole goes
  refine goesOn_of_clip least after minute unnamed ?_
  by_cases midnight : timeInDay past = 0
  · exact .inr (.inl midnight)
  · have sameDay : dayOf past = dayOf time := by
      unfold timeInDay at midnight
      unfold dayOf at near ⊢
      omega
    refine .inr (.inr ⟨?_, ?_⟩)
    · rwa [sameDay]
    · rwa [sameDay]

/-- The jump to the first of a later day: a day is set, and then the hours. -/
theorem goesOn_day {later : Int} (whole : time % 60000 = 0) (least : -MAX_TIME ≤ time)
    (after : dayOf time < later)
    (unnamed : ∀ other, time ≤ other → other < later * 86400000 → ¬Names cron other)
    (far : later = dayOf MAX_TIME → timeInDay time = 0) :
    GoesOn cron start time
      ((timeClip (makeDate later (timeInDay time))).bind fun next => setUTCHours next 0 0 0 0) := by
  have within : 0 ≤ timeInDay time ∧ timeInDay time < 86400000 := by
    unfold timeInDay
    omega
  have lowest : -MAX_TIME ≤ makeDate later (timeInDay time) := by
    unfold makeDate
    unfold dayOf at after
    omega
  cases clips : timeClip (makeDate later (timeInDay time)) with
  | none =>
    -- past the last moment, and not by the time of the day alone
    have past := timeClip_eq_none lowest clips
    refine ⟨fun other from_ most _ => unnamed other from_ ?_, fun _ nothing => nomatch nothing⟩
    unfold dayOf at *
    unfold makeDate at past
    unfold MAX_TIME at *
    omega
  | some kept =>
    obtain ⟨rfl, most⟩ := timeClip_eq_some clips
    have midnight : makeDate (dayOf (makeDate later (timeInDay time))) (makeTime 0 0 0 0) =
        later * 86400000 := by
      unfold makeDate makeTime dayOf
      unfold timeInDay at *
      omega
    rw [bind_some]
    unfold setUTCHours
    rw [midnight]
    refine goesOn_of_clip least ?_ (by omega) ?_ ?_
    · unfold dayOf at after
      omega
    · exact unnamed
    · refine .inr (.inl ?_)
      unfold timeInDay
      omega

/-- Every turn goes on or stands at a named minute. -/
theorem goesOn_turn {next : Option Int} (whole : time % 60000 = 0) (least : -MAX_TIME ≤ time)
    (stands : Stands cron start time) (early : start + 86400000 ≤ MAX_TIME)
    (goes : turn cron time = some next) : GoesOn cron start time next := by
  unfold turn at goes
  have maxDay : dayOf MAX_TIME = 100000000 := rfl
  split_ifs at goes with month day hour minute
  · obtain rfl := some.inj goes
    have goes : onward cron time = some _ := if_pos month
    refine goesOn_day whole least (lt_makeDay_next (dayOf time)) (onward_passes whole goes).2.2 ?_
    -- the last moment is on the thirteenth of its month
    intro last
    have first := dayOfMonth_next (dayOf time)
    rw [last] at first
    exact absurd first (by decide)
  · obtain rfl := some.inj goes
    have goes : onward cron time = some _ := (if_neg month).trans (if_pos day)
    rw [Bool.not_eq_true'] at day
    have next : makeDay (yearOf (dayOf time)) (monthOf (dayOf time))
        (dayOfMonth (dayOf time) + 1) = dayOf time + 1 := by
      rw [makeDay_same]
      omega
    unfold setUTCDate
    rw [next]
    refine goesOn_day whole least (by omega) (onward_passes whole goes).2.2 ?_
    intro last
    rcases stands with rfl | midnight | ⟨_, matches_⟩
    · unfold dayOf at last
      unfold timeInDay
      unfold MAX_TIME at *
      omega
    · exact midnight
    · exact absurd (day.symm.trans matches_) Bool.false_ne_true
  · obtain rfl := some.inj goes
    have goes : onward cron time = some _ :=
      (if_neg month).trans ((if_neg day).trans (if_pos hour))
    rw [Bool.not_eq_true', Bool.not_eq_false] at month day
    have next : makeDate (dayOf time) (makeTime (hoursOf time + 1) 0 0 0) =
        (time / 3600000 + 1) * 3600000 := by
      unfold makeDate makeTime dayOf hoursOf timeInDay
      omega
    unfold setUTCHours
    rw [next]
    exact goesOn_within whole least goes (by unfold dayOf; omega) month day
  · obtain rfl := some.inj goes
    have goes : onward cron time = some _ :=
      (if_neg month).trans ((if_neg day).trans ((if_neg hour).trans (if_pos minute)))
    rw [Bool.not_eq_true', Bool.not_eq_false] at month day
    have next : makeDate (dayOf time) (makeTime (hoursOf time) (minutesOf time + 1) 0 0) =
        time + 60000 := by
      unfold makeDate makeTime dayOf hoursOf minutesOf timeInDay
      omega
    unfold setUTCMinutes
    rw [next]
    exact goesOn_within whole least goes (by unfold dayOf; omega) month day

end Turns

/-! ### The whole search -/

/-- The search from a time ends with the next named minute, when nothing before the time is
named. -/
theorem exists_search {cron : Cron} {from_ start limit : Int} (turns : Nat) {time : Option Int}
    (limitIs : limit = from_ + YEAR) (held : limit ≤ MAX_TIME) (early : start + 86400000 ≤ MAX_TIME)
    (enough : ∀ now, time = some now → limit - now < 60000 * turns)
    (at_ : ∀ now, time = some now →
      from_ < now ∧ -MAX_TIME ≤ now ∧ now % 60000 = 0 ∧ Stands cron start now)
    (passed : ∀ other, from_ < other → other ≤ MAX_TIME → (∀ now, time = some now → other < now) →
      ¬Names cron other) :
    ∃ answer, search cron (some limit) turns time = some answer ∧ IsNext cron from_ answer := by
  have none_ (past : ∀ now, time = some now → limit < now) : IsNext cron from_ none := by
    intro other within
    refine passed other within.1 within.2.2 fun now is_ => ?_
    have := past now is_
    have := within.2.1
    omega
  induction turns generalizing time with
  | zero =>
    cases time with
    | none => exact ⟨none, rfl, none_ fun _ nothing => nomatch nothing⟩
    | some now =>
      have past := enough now rfl
      refine ⟨none, ?_, none_ fun _ same => some.inj same ▸ by omega⟩
      rw [search]
      exact if_neg (by omega)
  | succ turns inductionHypothesis =>
    cases time with
    | none => exact ⟨none, rfl, none_ fun _ nothing => nomatch nothing⟩
    | some now =>
      by_cases past : limit < now
      · refine ⟨none, ?_, none_ fun _ same => some.inj same ▸ past⟩
        rw [search]
        exact if_neg (by omega)
      obtain ⟨after, least, whole, stands⟩ := at_ now rfl
      have here : search cron (some limit) (turns + 1) (some now) =
          match turn cron now with
          | none => some (some now)
          | some next => search cron (some limit) turns next := by
        rw [search]
        exact if_pos (by omega)
      rw [here]
      cases stays : turn cron now with
      | none =>
        refine ⟨some now, rfl, ⟨after, by omega, by omega⟩, names_of_onward whole (onward_of_turn stays), ?_⟩
        intro other later before
        exact passed other later (by omega) fun _ same => some.inj same ▸ before
      | some next =>
        have goes := goesOn_turn whole least stands early stays
        have nextPassed : ∀ other, from_ < other → other ≤ MAX_TIME →
            (∀ found, next = some found → other < found) → ¬Names cron other := by
          intro other later most before
          by_cases behind : other < now
          · exact passed other later most fun _ same => some.inj same ▸ behind
          · exact goes.passes other (by omega) most before
        refine inductionHypothesis ?_ ?_ nextPassed ?_
        · intro found is_
          have := (goes.ahead found is_).1
          have := enough now rfl
          push_cast at this
          omega
        · intro found is_
          obtain ⟨further, _, minute, standsThere⟩ := goes.ahead found is_
          exact ⟨by omega, by omega, minute, standsThere⟩
        · intro beyond other within
          refine nextPassed other within.1 within.2.2 fun found is_ => ?_
          have := beyond found is_
          have := within.2.1
          omega

/-- The first whole minute after a moment, where the search starts. -/
theorem start_eq {from_ : Int} (least : -MAX_TIME ≤ from_) (most : from_ ≤ MAX_TIME) :
    ((setUTCSeconds from_ 0 0).bind fun whole =>
      setUTCMinutes whole (minutesOf whole + 1) (secondsOf whole) (whole % 1000)) =
      timeClip ((from_ / 60000 + 1) * 60000) := by
  have floor : setUTCSeconds from_ 0 0 = some (from_ / 60000 * 60000) := by
    have same : makeDate (dayOf from_) (makeTime (hoursOf from_) (minutesOf from_) 0 0) =
        from_ / 60000 * 60000 := by
      unfold makeDate makeTime dayOf hoursOf minutesOf timeInDay
      omega
    unfold setUTCSeconds
    rw [same]
    unfold MAX_TIME at *
    exact timeClip_of_within (by unfold MAX_TIME; omega) (by unfold MAX_TIME; omega)
  rw [floor, bind_some]
  unfold setUTCMinutes
  congr 1
  unfold makeDate makeTime dayOf hoursOf minutesOf secondsOf timeInDay
  omega

theorem nextRun_eq {expression : List Char} {cron : Cron}
    (accepted : parseCron wholeNumber expression = some cron) (from_ : Moment) :
    nextRun expression from_ = search cron (timeClip (from_.time + YEAR)) (366 * 1440)
      (timeClip ((from_.time / 60000 + 1) * 60000)) := by
  unfold nextRun
  rw [accepted]
  simp only [start_eq from_.least from_.most]

/-- The search finds the next named minute whenever the end of its year is a moment. -/
theorem right_of_held {expression : List Char} {cron : Cron}
    (accepted : parseCron wholeNumber expression = some cron) (from_ : Moment)
    (held : from_.time + YEAR ≤ MAX_TIME) : Right expression cron from_ := by
  have least := from_.least
  have year : (86400000 : Int) ≤ YEAR - 60000 := by decide
  have limit : timeClip (from_.time + YEAR) = some (from_.time + YEAR) :=
    timeClip_of_within (by omega) held
  have start : timeClip ((from_.time / 60000 + 1) * 60000) =
      some ((from_.time / 60000 + 1) * 60000) :=
    timeClip_of_within (by omega) (by omega)
  unfold Right
  rw [nextRun_eq accepted from_, limit, start]
  refine exists_search (366 * 1440) rfl held
    (show (from_.time / 60000 + 1) * 60000 + 86400000 ≤ MAX_TIME by omega) ?_ ?_ ?_
  · intro now is_
    obtain rfl := some.inj is_
    unfold YEAR
    push_cast
    omega
  · intro now is_
    obtain rfl := some.inj is_
    exact ⟨by omega, by omega, by omega, .inl rfl⟩
  · intro other later _ before names
    have := before _ rfl
    have := names.whole
    omega

/-- Where the end of the year is no moment, the search finds nothing at all. -/
theorem nextRun_of_past {expression : List Char} {cron : Cron}
    (accepted : parseCron wholeNumber expression = some cron) (from_ : Moment)
    (past : MAX_TIME < from_.time + YEAR) : nextRun expression from_ = some none := by
  have limit : timeClip (from_.time + YEAR) = none := if_neg fun within => by omega
  rw [nextRun_eq accepted from_, limit]
  cases timeClip ((from_.time / 60000 + 1) * 60000) <;> rfl

theorem IsNext.eq {cron : Cron} {from_ : Int} {first second : Option Int}
    (isFirst : IsNext cron from_ first) (isSecond : IsNext cron from_ second) : first = second := by
  cases first with
  | none =>
    cases second with
    | none => rfl
    | some found => exact absurd isSecond.2.1 (isFirst found isSecond.1)
  | some found =>
    cases second with
    | none => exact absurd isFirst.2.1 (isSecond found isFirst.1)
    | some other =>
      obtain ⟨within, names, least⟩ := isFirst
      obtain ⟨otherWithin, otherNames, otherLeast⟩ := isSecond
      rcases lt_trichotomy found other with early | same | late
      · exact absurd names (otherLeast found within.1 early)
      · rw [same]
      · exact absurd otherNames (least other otherWithin.1 late)

/-- The walk over times without a last one finds what is looked for. -/
theorem isNext_search {cron : Cron} {from_ : Int} (held : from_ + YEAR ≤ MAX_TIME) :
    IsNext cron from_
      (Scheduling.search cron (from_ + YEAR) (366 * 1440 + 1) ((from_ / 60000 + 1) * 60000)) := by
  have whole : (from_ / 60000 + 1) * 60000 % 60000 = 0 := by omega
  have later {time : Int} (after : from_ < time) (names : Names cron time) :
      (from_ / 60000 + 1) * 60000 ≤ time := by
    have := names.whole
    omega
  cases searched : Scheduling.search cron (from_ + YEAR) (366 * 1440 + 1)
      ((from_ / 60000 + 1) * 60000) with
  | some found =>
    obtain ⟨ahead, most, names, least⟩ := search_found whole searched
    exact ⟨⟨by omega, most, by omega⟩, names, fun time after before named =>
      least time (later after named) before named⟩
  | none =>
    intro time within named
    refine search_none whole ?_ searched time (later within.1 named) within.2.1 named
    unfold YEAR
    push_cast
    omega

/-- A schedule's times, which have no last one, are those of the search wherever the end of the
year it looks at is a moment. -/
theorem nextRun_eq_unbounded (expression : List Char) (from_ : Moment) (first : 0 ≤ from_.time)
    (held : from_.time + YEAR ≤ MAX_TIME) :
    nextRun expression from_ =
      some ((Scheduling.nextRun wholeNumber expression from_.time.toNat).map Int.ofNat) := by
  have same : (from_.time.toNat : Int) = from_.time := Int.toNat_of_nonneg first
  unfold Scheduling.nextRun
  cases accepted : parseCron wholeNumber expression with
  | none =>
    unfold nextRun
    rw [accepted]
    rfl
  | some cron =>
    obtain ⟨answer, found, isNext⟩ := right_of_held accepted from_ held
    rw [found, isNext.eq (isNext_search held)]
    dsimp only
    rw [same]
    cases searched : Scheduling.search cron (from_.time + YEAR) (366 * 1440 + 1)
        ((from_.time / 60000 + 1) * 60000) with
    | none => rfl
    | some time =>
      have ahead := (search_found (by omega) searched).1
      exact congrArg (some ∘ some) (Int.toNat_of_nonneg (by omega)).symm

/-- What the text of five stars is read as. -/
def everyMinute : Cron :=
  ⟨List.range' 0 60, List.range' 0 24, List.range' 1 31, List.range' 1 12, List.range' 0 7, false,
    false⟩

theorem parseCron_everyMinute :
    parseCron wholeNumber "* * * * *".toList = some everyMinute := by
  decide +kernel

/-- A day before the last moment there are minutes enough, and the search finds none of them. -/
theorem last_day_unfound :
    ¬Right "* * * * *".toList everyMinute ⟨MAX_TIME - 86400000, by decide, by decide⟩ := by
  rintro ⟨answer, found, isNext⟩
  have nothing := nextRun_of_past parseCron_everyMinute
    ⟨MAX_TIME - 86400000, by decide, by decide⟩ (by decide)
  obtain rfl := some.inj (nothing.symm.trans found)
  exact isNext (MAX_TIME - 86340000) ⟨by decide, by decide, by decide⟩
    ⟨by decide, by decide, ⟨nofun, nofun, nofun⟩, by decide, by decide⟩

/-- The search ends and finds the next named minute exactly where the end of the year it looks at
is a moment that a date can hold, or nothing is named in what is left of that year. -/
theorem right_iff {expression : List Char} {cron : Cron}
    (accepted : parseCron wholeNumber expression = some cron) (from_ : Moment) :
    Right expression cron from_ ↔
      from_.time + YEAR ≤ MAX_TIME ∨ ∀ time, Within from_.time time → ¬Names cron time := by
  by_cases held : from_.time + YEAR ≤ MAX_TIME
  · exact iff_of_true (right_of_held accepted from_ held) (.inl held)
  · have nothing := nextRun_of_past accepted from_ (by omega)
    constructor
    · rintro ⟨answer, found, isNext⟩
      obtain rfl := some.inj (nothing.symm.trans found)
      exact .inr isNext
    · rintro (within | unnamed)
      · exact absurd within held
      · exact ⟨none, nothing, unnamed⟩

theorem right_iff_everyMinute :
    Right "* * * * *".toList everyMinute ⟨0, by decide, by decide⟩ ↔
      (0 : Int) + YEAR ≤ MAX_TIME ∨ ∀ time, Within 0 time → ¬Names everyMinute time :=
  right_iff parseCron_everyMinute ⟨0, by decide, by decide⟩

/-! ### The next few times -/

def momentAt (time : Int) : Option Moment :=
  if held : -MAX_TIME ≤ time ∧ time ≤ MAX_TIME then some ⟨time, held.1, held.2⟩ else none

/-- The next times, each asked for from the one before it. -/
def nextRuns (expression : List Char) : Nat → Moment → List Moment
  | 0, _ => []
  | count + 1, cursor =>
    match (nextRun expression cursor).join.bind momentAt with
    | none => []
    | some next => next :: nextRuns expression count next

/-- What the next times should be: named, in order, with none left out, and fewer than asked for
only where the year after the last has none. -/
structure AreNext (cron : Cron) (from_ : Moment) (count : Nat) (runs : List Moment) : Prop where
  named : ∀ run ∈ runs, from_.time < run.time ∧ Names cron run.time
  ordered : runs.Pairwise fun first second => first.time < second.time
  all : ∀ time, from_.time < time → Names cron time → (∃ run ∈ runs, time ≤ run.time) →
    ∃ run ∈ runs, run.time = time
  enough : runs.length = count ∨ runs.length < count ∧
    ∀ time, Within (runs.getLast?.getD from_).time time → ¬Names cron time

theorem areNext_nil {cron : Cron} {from_ : Moment} {count : Nat}
    (nothing : 0 < count → ∀ time, Within from_.time time → ¬Names cron time) :
    AreNext cron from_ count [] where
  named _ none := nomatch none
  ordered := .nil
  all _ _ _ some_ := some_.elim fun _ none => nomatch none.1
  enough := count.eq_zero_or_pos.imp Eq.symm fun positive => ⟨positive, nothing positive⟩

theorem AreNext.cons {cron : Cron} {from_ stop : Moment} {count : Nat} {runs : List Moment}
    (isNext : IsNext cron from_.time (some stop.time)) (rest : AreNext cron stop count runs) :
    AreNext cron from_ (count + 1) (stop :: runs) := by
  obtain ⟨inside, names, least⟩ := isNext
  refine ⟨?_, pairwise_cons.mpr ⟨fun run runIn => (rest.named run runIn).1, rest.ordered⟩,
    ?_, ?_⟩
  · refine forall_mem_cons.mpr ⟨⟨inside.1, names⟩, fun run runIn => ?_⟩
    exact ⟨inside.1.trans (rest.named run runIn).1, (rest.named run runIn).2⟩
  · rintro time later named ⟨run, runIn, before⟩
    rcases lt_trichotomy time stop.time with early | same | late
    · exact absurd named (least time later early)
    · exact ⟨stop, mem_cons_self, same.symm⟩
    · have among : run ∈ runs := (mem_cons.mp runIn).resolve_left fun same =>
        absurd late (same ▸ before).not_gt
      obtain ⟨other, otherIn, same⟩ := rest.all time late named ⟨run, among, before⟩
      exact ⟨other, mem_cons_of_mem _ otherIn, same⟩
  · rw [length_cons, getLast?_cons, getD_some]
    exact rest.enough.imp (congrArg (· + 1)) fun short => ⟨Nat.succ_lt_succ short.1, short.2⟩

/-- The next few times are those, as long as the years they are looked for in are held. -/
theorem nextRuns_areNext {expression : List Char} {cron : Cron}
    (accepted : parseCron wholeNumber expression = some cron) (count : Nat) (from_ : Moment)
    (held : from_.time + count * YEAR ≤ MAX_TIME) :
    AreNext cron from_ count (nextRuns expression count from_) := by
  induction count generalizing from_ with
  | zero => exact areNext_nil fun positive => absurd positive (Nat.lt_irrefl 0)
  | succ count inductionHypothesis =>
    have room : (0 : Int) ≤ count * YEAR := Int.mul_nonneg (Int.natCast_nonneg _) (by decide)
    rw [Nat.cast_succ, Int.add_mul, Int.one_mul] at held
    obtain ⟨answer, found, isNext⟩ := right_of_held accepted from_ (by omega)
    unfold nextRuns
    rw [found]
    cases answer with
    | none => exact areNext_nil fun _ => isNext
    | some next =>
      obtain ⟨later, within, most⟩ := isNext.1
      have least := from_.least
      have bounds : -MAX_TIME ≤ next ∧ next ≤ MAX_TIME := ⟨by omega, most⟩
      have isMoment : momentAt next = some ⟨next, bounds.1, bounds.2⟩ := dif_pos bounds
      rw [join_some, bind_some, isMoment]
      exact .cons isNext (inductionHypothesis _ (by show next + _ ≤ _; omega))

theorem nextRuns_areNext_everyMinute : AreNext everyMinute ⟨0, by decide, by decide⟩ 3
    (nextRuns "* * * * *".toList 3 ⟨0, by decide, by decide⟩) :=
  nextRuns_areNext parseCron_everyMinute 3 _ (by decide)

end Geeboard.Scheduling.Moments
