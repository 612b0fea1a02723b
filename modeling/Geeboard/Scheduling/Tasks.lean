/-
This file is about a schedule's rows while several hands write them: pollers that
claim what is due, runs that end, and people who edit, pause and delete tasks.

Each of them reads a task, works out its next time from what it read, and writes it
by the task's id some statements later. Only the claim asks whether the time is
still the one it read. A time that is written for a text or a switch the row no
longer has leaves it inconsistent, and a time that has passed when it is written may
be run again. Writes that do neither keep the schedule.
-/

import Geeboard.Scheduling.Cron
import Geeboard.Systems.Steps
import Geeboard.Text.Numerals
import Mathlib.Logic.Function.Basic

namespace Geeboard.Scheduling

open Option Function
open Text (wholeNumber)

/-! ### The rows and the hands -/

/-- A scheduled task, as far as its times go. -/
structure Task where
  cron : List Char
  enabled : Bool
  nextRunAt : Option Nat
  deriving DecidableEq, Repr

/-- What a statement writes: a new text or switch where it has one, and the next time, which was
made for a text and for a switch at some moment. -/
structure Update where
  cron : Option (List Char) := none
  enabled : Option Bool := none
  madeFrom : List Char
  madeFor : Bool
  madeAt : Nat
  deriving DecidableEq, Repr

/-- Where a hand is. A run that a poller claimed keeps the poller's copy of the task, which the
poller falls back on when the run fails. -/
inductive Job where
  | idle
  | found (id : Nat) (copy : Task) (at_ : Nat)
  | claimed (id : Nat) (claim : Task)
  | running (id : Nat) (claim : Option Task) (copy : Task)
  | toggling (id : Nat) (copy : Task)
  | editing (id : Nat) (copy : Task) (cron : List Char)
  | filling (id : Nat) (copy : Task) (at_ : Nat)
  | deleting (id : Nat)
  | writing (id : Nat) (claim : Option Task) (update : Update)
  | creating (update : Update)
  | ended
  deriving DecidableEq, Repr

/-- The rows by id, the ids given out, the clock, the hands, and the times that were claimed. -/
structure State where
  rows : Nat → Option Task
  fresh : Nat
  now : Nat
  jobs : Nat → Job
  claims : List (Nat × Nat)

inductive Event where
  | tick (to_ : Nat)
  | look (job id at_ : Nat)
  | claim (job : Nat)
  | startRun (job id : Nat)
  | readRun (job : Nat)
  | endRun (job : Nat)
  | failRun (job : Nat)
  | startToggle (job id : Nat)
  | startEdit (job id : Nat) (cron : List Char)
  | startFill (job id at_ : Nat)
  | startDelete (job id : Nat)
  | startCreate (job : Nat) (cron : List Char)
  | compute (job : Nat)
  | write (job : Nat)
  deriving DecidableEq, Repr

/-- How late a task is still run. -/
def LATE_TOLERANCE_MS : Nat := 15 * 60000

def State.setJob (state : State) (job : Nat) (next : Job) : State :=
  { state with jobs := Function.update state.jobs job next }

section

variable (number : List Char → Option Int)

/-- The next time a statement writes. -/
def Update.next (update : Update) : Option Nat :=
  if update.madeFor then nextRun number update.madeFrom update.madeAt else none

/-- A task with an update written over it. -/
def Task.put (task : Task) (update : Update) : Task :=
  ⟨update.cron.getD task.cron, update.enabled.getD task.enabled, update.next number⟩

/-- The task that is created: on, with its text. -/
def Update.created (update : Update) : Task := ⟨update.madeFrom, true, update.next number⟩

/-- One statement of one hand, or the passing of time. -/
def step (state : State) : Event → Option State
  | .tick to_ => if state.now ≤ to_ then some { state with now := to_ } else none
  | .look job id at_ =>
    match state.jobs job, state.rows id with
    | .idle, some task =>
      if task.enabled && (task.nextRunAt.any fun time => time ≤ at_) && at_ ≤ state.now then
        some (state.setJob job (.found id task at_))
      else none
    | _, _ => none
  | .claim job =>
    match state.jobs job with
    | .found id copy at_ =>
      match state.rows id, copy.nextRunAt with
      | some task, some time =>
        if task.nextRunAt = some time then
          let tooLate := LATE_TOLERANCE_MS < at_ - time
          some { (state.setJob job (if tooLate then .ended else .claimed id copy)) with
            rows := Function.update state.rows id
              (some { task with nextRunAt := nextRun number copy.cron at_ })
            claims := (id, time) :: state.claims }
        else some (state.setJob job .ended)
      | _, _ => some (state.setJob job .ended)
    | _ => none
  | .startRun job id =>
    match state.jobs job, state.rows id with
    | .idle, some task => some (state.setJob job (.running id none task))
    | _, _ => none
  | .readRun job =>
    match state.jobs job with
    | .claimed id claim =>
      match state.rows id with
      | some task => some (state.setJob job (.running id (some claim) task))
      | none => some (state.setJob job .ended)
    | _ => none
  | .endRun job =>
    match state.jobs job with
    | .running id claim copy =>
      some (state.setJob job (.writing id claim
        { madeFrom := copy.cron, madeFor := true, madeAt := state.now }))
    | _ => none
  | .failRun job =>
    -- A run that throws: one of a poller is rescheduled from the poller's copy, one by hand is not.
    match state.jobs job with
    | .claimed id claim =>
      some (state.setJob job (.writing id none
        { madeFrom := claim.cron, madeFor := true, madeAt := state.now }))
    | .running id (some claim) _ =>
      some (state.setJob job (.writing id none
        { madeFrom := claim.cron, madeFor := true, madeAt := state.now }))
    | .running _ none _ => some (state.setJob job .ended)
    | .writing id (some claim) _ =>
      some (state.setJob job (.writing id none
        { madeFrom := claim.cron, madeFor := true, madeAt := state.now }))
    | .writing _ none _ => some (state.setJob job .ended)
    | _ => none
  | .startToggle job id =>
    match state.jobs job, state.rows id with
    | .idle, some task => some (state.setJob job (.toggling id task))
    | _, _ => none
  | .startEdit job id cron =>
    match state.jobs job, state.rows id with
    | .idle, some task => some (state.setJob job (.editing id task cron))
    | _, _ => none
  | .startFill job id at_ =>
    match state.jobs job, state.rows id with
    | .idle, some task =>
      if task.enabled && task.nextRunAt.isNone && at_ ≤ state.now then
        some (state.setJob job (.filling id task at_))
      else none
    | _, _ => none
  | .startDelete job id =>
    match state.jobs job with
    | .idle => some (state.setJob job (.deleting id))
    | _ => none
  | .startCreate job cron =>
    match state.jobs job with
    | .idle =>
      some (state.setJob job
        (.creating { madeFrom := cron, madeFor := true, madeAt := state.now }))
    | _ => none
  | .compute job =>
    match state.jobs job with
    | .toggling id copy =>
      some (state.setJob job (.writing id none
        { enabled := some (!copy.enabled), madeFrom := copy.cron, madeFor := !copy.enabled
          madeAt := state.now }))
    | .editing id copy cron =>
      some (state.setJob job (.writing id none
        { cron := some cron, madeFrom := cron, madeFor := copy.enabled, madeAt := state.now }))
    | .filling id copy at_ =>
      -- A text that names no time is left with none.
      if (nextRun number copy.cron at_).isNone then some (state.setJob job .ended)
      else some (state.setJob job (.writing id none
        { madeFrom := copy.cron, madeFor := true, madeAt := at_ }))
    | _ => none
  | .write job =>
    match state.jobs job with
    | .writing id _ update =>
      match state.rows id with
      | some task =>
        some { (state.setJob job .ended) with
          rows := Function.update state.rows id (some (task.put number update)) }
      | none => some (state.setJob job .ended)
    | .creating update =>
      some { (state.setJob job .ended) with
        rows := Function.update state.rows state.fresh (some (update.created number))
        fresh := state.fresh + 1 }
    | .deleting id =>
      some { (state.setJob job .ended) with rows := Function.update state.rows id none }
    | _ => none

/-! ### What is to hold, and when it does -/

/-- A task that is on is due at a minute of its text, or has no time when the text names none; one
that is off has no time. -/
def Task.Consistent (task : Task) : Prop :=
  match task.nextRunAt with
  | some time => task.enabled = true ∧ IsMinuteOf number task.cron time
  | none => task.enabled = true → ∃ moment, nextRun number task.cron moment = none

/-- No time of a task was claimed twice, and every task is consistent. -/
structure Kept (state : State) : Prop where
  once : state.claims.Nodup
  rows : ∀ id task, state.rows id = some task → task.Consistent number

/-- A time is written for the text and the switch that the row then has, and before it comes. -/
def Lands (state : State) (task : Task) (update : Update) : Prop :=
  (task.put number update).cron = update.madeFrom ∧
    (task.put number update).enabled = update.madeFor ∧
    ∀ time, update.next number = some time → state.now < time

instance (state : State) (task : Task) (update : Update) :
    Decidable (Lands number state task update) :=
  inferInstanceAs (Decidable ((task.put number update).cron = update.madeFrom ∧
    (task.put number update).enabled = update.madeFor ∧
    ∀ time ∈ update.next number, state.now < time))

/-- The step writes the next time of a task as it then is, and in time. -/
def Timely (state : State) : Event → Prop
  | .claim job =>
    match state.jobs job with
    | .found id copy _ => ∀ task, state.rows id = some task → task.nextRunAt = copy.nextRunAt →
        task.cron = copy.cron
    | _ => True
  | .write job =>
    match state.jobs job with
    | .writing id _ update => ∀ task, state.rows id = some task → Lands number state task update
    | _ => True
  | _ => True

/-! ### What every state has -/

variable {number}

/-- What a hand knows. -/
def Job.Sound (state : State) : Job → Prop
  | .found _ copy at_ => ∃ time, copy.nextRunAt = some time ∧ time ≤ at_ ∧ at_ ≤ state.now
  | .creating update => update.madeFor = true
  | _ => True

variable (number) in
/-- The schedule is kept, and every time a task has still lies behind those claimed of it. -/
structure Sound (state : State) : Prop where
  kept : Kept number state
  ahead : ∀ id task time, state.rows id = some task → task.nextRunAt = some time →
    ∀ claimed ∈ state.claims, claimed.1 = id → claimed.2 < time
  past : ∀ claimed ∈ state.claims, claimed.2 ≤ state.now ∧ claimed.1 < state.fresh
  ids : ∀ id task, state.rows id = some task → id < state.fresh
  jobs : ∀ job, (state.jobs job).Sound state

theorem Job.Sound.later {state later : State} {job : Job} (sound : job.Sound state)
    (clock : state.now ≤ later.now) : job.Sound later := by
  cases job with
  | found id copy at_ =>
    obtain ⟨time, has, due, past⟩ := sound
    exact ⟨time, has, due, past.trans clock⟩
  | creating update => exact sound
  | _ => trivial

theorem Sound.setJob {state : State} (sound : Sound number state) {job : Nat} {next : Job}
    (knows : next.Sound state) : Sound number (state.setJob job next) := by
  refine ⟨⟨sound.kept.once, sound.kept.rows⟩, sound.ahead, sound.past, sound.ids, fun one => ?_⟩
  unfold State.setJob
  dsimp only
  by_cases here : one = job
  · rw [here, update_self]
    exact knows
  · rw [update_of_ne here]
    exact (sound.jobs one).later le_rfl

/-- A row written anew: consistent, and with a time behind those claimed. -/
theorem Sound.setRow {state : State} (sound : Sound number state) {id : Nat} {row : Option Task}
    (known : id < state.fresh) (consistent : ∀ task, row = some task → task.Consistent number)
    (ahead : ∀ task time, row = some task → task.nextRunAt = some time →
      ∀ claimed ∈ state.claims, claimed.1 = id → claimed.2 < time) :
    Sound number { state with rows := Function.update state.rows id row } := by
  refine ⟨⟨sound.kept.once, fun one task has => ?_⟩, fun one task time has due => ?_, sound.past,
    fun one task has => ?_, fun one => (sound.jobs one).later le_rfl⟩
  · dsimp only at has
    by_cases here : one = id
    · rw [here, update_self] at has
      exact consistent task has
    · rw [update_of_ne here] at has
      exact sound.kept.rows one task has
  · dsimp only at has
    by_cases here : one = id
    · rw [here, update_self] at has
      rw [here]
      exact ahead task time has due
    · rw [update_of_ne here] at has
      exact sound.ahead one task time has due
  · dsimp only at has
    by_cases here : one = id
    · rw [here]
      exact known
    · rw [update_of_ne here] at has
      exact sound.ids one task has

theorem consistent_of_next {cron : List Char} {moment : Nat} :
    Task.Consistent number ⟨cron, true, nextRun number cron moment⟩ := by
  unfold Task.Consistent
  dsimp only
  split
  · rename_i time next
    exact ⟨rfl, nextRun_isMinuteOf next⟩
  · rename_i next
    exact fun _ => ⟨moment, next⟩

theorem consistent_of_lands {state : State} {task : Task} {update : Update}
    (lands : Lands number state task update) : (task.put number update).Consistent number := by
  obtain ⟨cron, enabled, -⟩ := lands
  have parts : task.put number update =
      ⟨(task.put number update).cron, (task.put number update).enabled, update.next number⟩ := rfl
  rw [parts, cron, enabled]
  unfold Update.next
  cases update.madeFor with
  | true => exact consistent_of_next
  | false =>
    rw [if_neg Bool.false_ne_true]
    rintro ⟨⟩

theorem sound_step {state next : State} {event : Event} (sound : Sound number state)
    (timely : Timely number state event) (taken : step number state event = some next) :
    Sound number next := by
  cases event with
  | tick to_ =>
    unfold step at taken
    dsimp only at taken
    split at taken
    · rename_i clock
      cases taken
      exact ⟨⟨sound.kept.once, sound.kept.rows⟩, sound.ahead, fun claimed member =>
        ⟨(sound.past claimed member).1.trans clock, (sound.past claimed member).2⟩, sound.ids,
        fun job => (sound.jobs job).later clock⟩
    · cases taken
  | look job id at_ =>
    unfold step at taken
    dsimp only at taken
    split at taken
    · rename_i task idle has
      split at taken
      · rename_i due
        cases taken
        simp only [Bool.and_eq_true, decide_eq_true_eq] at due
        obtain ⟨time, has_, before⟩ := (Option.any_eq_true _ _).mp due.1.2
        exact sound.setJob ⟨time, has_, by simpa using before, due.2⟩
      · cases taken
    · cases taken
  | claim job =>
    unfold step at taken
    unfold Timely at timely
    dsimp only at taken timely
    split at taken
    · rename_i id copy at_ found
      rw [found] at timely
      have knows := sound.jobs job
      rw [found] at knows
      obtain ⟨due, hasTime, before, past⟩ := knows
      split at taken
      · rename_i task time has copyTime
        split at taken
        · rename_i same
          obtain rfl : due = time := some.inj (hasTime.symm.trans copyTime)
          cases taken
          have text := timely task has (same.trans copyTime.symm)
          have enabled : task.enabled = true := by
            have consistent := sound.kept.rows id task has
            unfold Task.Consistent at consistent
            rw [same] at consistent
            exact consistent.1
          have known := sound.ids id task has
          have fresh : ∀ claimed ∈ state.claims, claimed.1 = id → claimed.2 < due :=
            sound.ahead id task due has same
          have later : ∀ time, nextRun number copy.cron at_ = some time → due < time :=
            fun time next => before.trans_lt (nextRun_later next)
          have moved : Sound number { state with
              rows := Function.update state.rows id
                (some { task with nextRunAt := nextRun number copy.cron at_ }) } := by
            refine sound.setRow known ?_ ?_
            · rintro one ⟨⟩
              rw [← text, enabled]
              exact consistent_of_next
            · rintro one time ⟨⟩ next claimed member mine
              exact (fresh claimed member mine).trans (later time next)
          have whole : Sound number { state with
              rows := Function.update state.rows id
                (some { task with nextRunAt := nextRun number copy.cron at_ })
              claims := (id, due) :: state.claims } := by
            refine ⟨⟨List.nodup_cons.mpr ⟨fun member => ?_, moved.kept.once⟩, moved.kept.rows⟩,
              fun one row time has next => ?_, ?_, moved.ids,
              fun one => (moved.jobs one).later le_rfl⟩
            · exact absurd (fresh _ member rfl) (lt_irrefl due)
            · refine List.forall_mem_cons.mpr ⟨fun mine => ?_, moved.ahead one row time has next⟩
              obtain rfl : id = one := mine
              dsimp only at has
              rw [update_self] at has
              obtain rfl := some.inj has
              exact later time next
            · exact List.forall_mem_cons.mpr ⟨⟨before.trans past, known⟩, moved.past⟩
          refine whole.setJob ?_
          split
          · trivial
          · trivial
        · cases taken
          exact sound.setJob trivial
      · cases taken
        exact sound.setJob trivial
    · cases taken
  | write job =>
    unfold step at taken
    unfold Timely at timely
    dsimp only at taken timely
    split at taken
    · rename_i id claim update writing
      rw [writing] at timely
      split at taken
      · rename_i task has
        cases taken
        have lands := timely task has
        refine (Sound.setRow sound (sound.ids id task has) ?_ ?_).setJob trivial
        · rintro one ⟨⟩
          exact consistent_of_lands lands
        · rintro one time ⟨⟩ next claimed member _
          exact (sound.past claimed member).1.trans_lt (lands.2.2 time next)
      · cases taken
        exact sound.setJob trivial
    · rename_i update creating
      cases taken
      have fresh : ∀ claimed ∈ state.claims, claimed.1 ≠ state.fresh := fun claimed member same =>
        absurd (sound.past claimed member).2 (same ▸ lt_irrefl _)
      have wider : Sound number { state with fresh := state.fresh + 1 } :=
        ⟨⟨sound.kept.once, sound.kept.rows⟩, sound.ahead, fun claimed member => ⟨(sound.past claimed member).1,
          (sound.past claimed member).2.trans (Nat.lt_succ_self _)⟩,
          fun id task has => (sound.ids id task has).trans (Nat.lt_succ_self _),
          fun one => (sound.jobs one).later le_rfl⟩
      refine (Sound.setRow wider (Nat.lt_succ_self _) ?_ ?_).setJob trivial
      · rintro one ⟨⟩
        unfold Update.created Update.next
        have knows : update.madeFor = true := by
          have here := sound.jobs job
          rw [creating] at here
          exact here
        rw [if_pos knows]
        exact consistent_of_next
      · intro one time _ _ claimed member mine
        exact absurd mine (fresh claimed member)
    · rename_i id deleting
      cases taken
      by_cases known : id < state.fresh
      · refine (Sound.setRow sound known ?_ ?_).setJob trivial
        · rintro one ⟨⟩
        · rintro one time ⟨⟩
      · have absent : state.rows id = none := by
          cases has : state.rows id with
          | none => rfl
          | some task => exact absurd (sound.ids id task has) known
        have same : Function.update state.rows id none = state.rows := by
          rw [← absent, update_eq_self]
        rw [same]
        exact sound.setJob trivial
    · cases taken
  | startDelete job id =>
    unfold step at taken
    dsimp only at taken
    split at taken
    · cases taken
      exact sound.setJob trivial
    · cases taken
  | startCreate job cron =>
    unfold step at taken
    dsimp only at taken
    split at taken
    · cases taken
      exact sound.setJob rfl
    · cases taken
  | endRun job =>
    unfold step at taken
    dsimp only at taken
    split at taken
    · cases taken
      exact sound.setJob trivial
    · cases taken
  | startRun job id | startToggle job id | startEdit job id cron =>
    unfold step at taken
    dsimp only at taken
    split at taken
    · cases taken
      exact sound.setJob trivial
    · cases taken
  | startFill job id at_ =>
    unfold step at taken
    dsimp only at taken
    split at taken
    · split at taken
      · cases taken
        exact sound.setJob trivial
      · cases taken
    · cases taken
  | readRun job =>
    unfold step at taken
    dsimp only at taken
    split at taken
    · split at taken
      · cases taken
        exact sound.setJob trivial
      · cases taken
        exact sound.setJob trivial
    · cases taken
  | failRun job =>
    unfold step at taken
    dsimp only at taken
    split at taken
    · cases taken
      exact sound.setJob trivial
    · cases taken
      exact sound.setJob trivial
    · cases taken
      exact sound.setJob trivial
    · cases taken
      exact sound.setJob trivial
    · cases taken
      exact sound.setJob trivial
    · cases taken
  | compute job =>
    unfold step at taken
    dsimp only at taken
    split at taken
    · cases taken
      exact sound.setJob trivial
    · cases taken
      exact sound.setJob trivial
    · split at taken
      · cases taken
        exact sound.setJob trivial
      · cases taken
        exact sound.setJob trivial
    · cases taken

end

/-! ### Every run -/

/-- When every next time is written for the task as it then is and before it comes, no time of a
task is claimed twice, and every task is due at a minute of its text, or is off and not due, in
every state of the run. -/
theorem schedule_kept (number : List Char → Option Int) (state : State) (events : List Event)
    (sound : Sound number state)
    (timely : Systems.Meets (step number) (Timely number) state events) :
    Systems.Along (step number) (Kept number) state events :=
  (Systems.along_of_meets (fun _ _ _ sound timely taken => sound_step sound timely taken) sound
    timely).mono fun _ sound => sound.kept

/-! ### One task, run, paused and run again -/

/-- One task that is on, and due at this time. -/
def oneTask (cron : String) (due : Nat) : State where
  rows := fun id => if id = 0 then some ⟨cron.toList, true, some due⟩ else none
  fresh := 1
  now := 0
  jobs := fun _ => .idle
  claims := []

theorem oneTask_sound {cron : String} {due : Nat} (named : IsMinuteOf wholeNumber cron.toList due) :
    Sound wholeNumber (oneTask cron due) := by
  have row : ∀ id task, (oneTask cron due).rows id = some task →
      id = 0 ∧ task = ⟨cron.toList, true, some due⟩ := by
    intro id task has
    obtain ⟨same, made⟩ := ite_none_right_eq_some.mp has
    exact ⟨same, (some.inj made).symm⟩
  refine ⟨⟨List.nodup_nil, fun id task has => ?_⟩, ?_, ?_, fun id task has => ?_, fun _ => trivial⟩
  · obtain ⟨-, rfl⟩ := row id task has
    exact ⟨rfl, named⟩
  · rintro id task time has due claimed ⟨⟩
  · rintro claimed ⟨⟩
  · rw [(row id task has).1]
    exact Nat.zero_lt_one

/-- A poller claims the task when it is due and runs it, and then its text is changed. -/
def runAndEdited : List Event := [.tick 10800000, .look 0 0 10800000, .claim 0, .readRun 0,
  .endRun 0, .write 0, .startEdit 1 0 "0 4 * * *".toList, .compute 1, .write 1]

theorem nightly_isMinute : IsMinuteOf wholeNumber "0 3 * * *".toList 10800000 :=
  ⟨⟨[0], [3], List.range' 1 31, List.range' 1 12, List.range' 0 7, false, false⟩,
    by decide +kernel, by decide, by decide, ⟨nofun, nofun, nofun⟩, by decide, by decide⟩

theorem schedule_kept_runAndEdited :
    Systems.Along (step wholeNumber) (Kept wholeNumber) (oneTask "0 3 * * *" 10800000) runAndEdited ∧
      (Systems.run (step wholeNumber) (oneTask "0 3 * * *" 10800000) runAndEdited).map
        (fun last => last.rows 0) = some (some ⟨"0 4 * * *".toList, true, some 14400000⟩) := by
  refine ⟨schedule_kept wholeNumber _ _ (oneTask_sound nightly_isMinute) ?_, by decide +kernel⟩
  refine Systems.meets_cons trivial rfl ?_
  refine Systems.meets_cons trivial rfl ?_
  refine Systems.meets_cons (fun task has _ => ?_) rfl ?_
  · obtain rfl := some.inj has
    rfl
  refine Systems.meets_cons trivial rfl ?_
  refine Systems.meets_cons trivial rfl ?_
  refine Systems.meets_cons (fun task has => ?_) rfl ?_
  · obtain rfl := some.inj has
    decide +kernel
  refine Systems.meets_cons trivial rfl ?_
  refine Systems.meets_cons trivial rfl ?_
  refine ⟨fun task has => ?_, fun next taken => trivial⟩
  obtain rfl := some.inj has
  decide +kernel

/-- The task is paused while its run goes on; the run ends, and it is due again though it is off. -/
def pausedMeanwhile : List Event := [.tick 10800000, .look 0 0 10800000, .claim 0, .readRun 0,
  .startToggle 1 0, .compute 1, .write 1, .endRun 0, .write 0]

/-- The run has worked out its next time, and writes it when another poller has claimed that time
already. -/
def claimedAgain : List Event := [.tick 60000, .look 0 0 60000, .claim 0, .readRun 0, .tick 119999,
  .endRun 0, .tick 120000, .look 1 0 120000, .claim 1, .write 0, .look 2 0 120000, .claim 2]

theorem paused_task_is_due :
    (Systems.run (step wholeNumber) (oneTask "0 3 * * *" 10800000) pausedMeanwhile).map
      (fun last => last.rows 0) = some (some ⟨"0 3 * * *".toList, false, some 97200000⟩) := by
  decide +kernel

theorem time_is_claimed_twice :
    (Systems.run (step wholeNumber) (oneTask "* * * * *" 60000) claimedAgain).map State.claims =
      some [(0, 120000), (0, 120000), (0, 60000)] := by
  decide +kernel

/-- A task that is off is due, and a time is claimed twice. -/
theorem schedule_is_lost :
    (¬ ∀ events, Systems.Along (step wholeNumber) (fun state => ∀ id task, state.rows id = some task →
      task.Consistent wholeNumber) (oneTask "0 3 * * *" 10800000) events) ∧
    ¬ ∀ events, Systems.Along (step wholeNumber) (fun state => state.claims.Nodup)
      (oneTask "* * * * *" 60000) events := by
  constructor
  · intro always
    obtain ⟨last, run, row⟩ := map_eq_some_iff.mp paused_task_is_due
    have consistent := Systems.along_last (always pausedMeanwhile) run 0 _ row
    exact Bool.false_ne_true consistent.1
  · intro always
    obtain ⟨last, run, claims⟩ := map_eq_some_iff.mp time_is_claimed_twice
    have once := Systems.along_last (always claimedAgain) run
    rw [claims] at once
    exact absurd once (by decide)

end Geeboard.Scheduling
