/-
This file is about doing several things at once, a few at a time: a pool that runs a
work for each of its items, and a gate that calls go through.

Both are machines that take one event after another, so that what is shown of their
runs is shown for every order in which the pieces of work end. The pool's lanes share
the index of the next item; a place at the gate that is given back goes straight to the
first that waits. The limit is a number of the language, which need be no whole number
and need not be a number at all.
-/

import Geeboard.Systems.Steps
import Mathlib.Algebra.Order.Floor.Defs
import Mathlib.Data.Rat.Floor

namespace Geeboard.Panel.Concurrency

open List
open Systems (run)

/-! ### Limits -/

/-- A number of the language. -/
inductive Limit
  | nan
  | minusInfinity
  | finite (value : ℚ)
  | infinity
  deriving DecidableEq, Repr

/-- The larger of one and a limit. -/
def Limit.maxOne : Limit → Limit
  | .nan => .nan
  | .minusInfinity => .finite 1
  | .finite value => .finite (max 1 value)
  | .infinity => .infinity

/-- The smaller of a limit and a count. -/
def Limit.minWith (count : Nat) : Limit → Limit
  | .nan => .nan
  | .minusInfinity => .minusInfinity
  | .finite value => .finite (min value count)
  | .infinity => .finite count

/-- The length of an array that is made of so many. -/
def Limit.toLength : Limit → Nat
  | .nan => 0
  | .minusInfinity => 0
  | .finite value => min ⌊value⌋.toNat (2 ^ 53 - 1)
  | .infinity => 2 ^ 53 - 1

/-- Whether so many are as many as a limit, or more. -/
def Limit.reachedBy (count : Nat) : Limit → Bool
  | .nan => false
  | .minusInfinity => true
  | .finite value => value ≤ count
  | .infinity => false

/-- Whether so many are more than the larger of one and a limit. -/
def Limit.exceededBy (count : Nat) (limit : Limit) : Bool :=
  match limit.maxOne with
  | .nan => false
  | .minusInfinity => true
  | .finite value => value < count
  | .infinity => false

/-- A limit that is whole where it is a limit at all. -/
def Limit.IsWhole : Limit → Prop
  | .finite value => value ≤ 1 ∨ ∃ whole : Int, value = whole
  | _ => True

/-! ### The pool -/

/-- A lane of the pool: about to look for an item, at work on one, or over. -/
inductive Lane
  | looping
  | working (item : Nat)
  | over_
  deriving DecidableEq, Repr

/-- The pool, with the items whose work was begun, and the outcomes in the order they came. -/
structure Pool (Outcome : Type) where
  next : Nat
  lanes : List Lane
  results : List (Option Outcome)
  started : List Nat
  ended : List (Nat × Outcome)

inductive PoolEvent (Outcome : Type)
  /-- A lane looks for its next item. -/
  | turn (lane : Nat)
  /-- The work a lane waits for returns or throws. -/
  | settle (lane : Nat) (outcome : Outcome)

variable {Outcome : Type}

/-- How many lanes a pool has. -/
def laneCount (limit : Limit) (count : Nat) : Nat := (limit.minWith count).maxOne.toLength

def Pool.start (limit : Limit) (count : Nat) : Pool Outcome where
  next := 0
  lanes := List.replicate (laneCount limit count) .looping
  results := List.replicate count none
  started := []
  ended := []

def Pool.step (count : Nat) (pool : Pool Outcome) : PoolEvent Outcome → Option (Pool Outcome)
  | .turn lane =>
    match pool.lanes[lane]? with
    | some .looping =>
      if pool.next < count then
        some { pool with
          next := pool.next + 1
          lanes := pool.lanes.set lane (.working pool.next)
          started := pool.started ++ [pool.next] }
      else some { pool with lanes := pool.lanes.set lane .over_ }
    | _ => none
  | .settle lane outcome =>
    match pool.lanes[lane]? with
    | some (.working item) =>
      some { pool with
        lanes := pool.lanes.set lane .looping
        results := pool.results.set item (some outcome)
        ended := pool.ended ++ [(item, outcome)] }
    | _ => none

def Lane.isWorking : Lane → Bool
  | .working _ => true
  | _ => false

/-- How many pieces of work are in flight. -/
def Pool.inFlight (pool : Pool Outcome) : Nat := pool.lanes.countP Lane.isWorking

/-- Whether the pool has its results. -/
def Pool.IsOver (pool : Pool Outcome) : Prop := ∀ lane ∈ pool.lanes, lane = .over_

/-- What a pool promises, whatever the order of its events: no more than its limit in flight, each
item once, and at the end all of them with their results; and until then something can still happen,
and not for ever. -/
def PoolHolds (Outcome : Type) (limit : Limit) (count : Nat) : Prop :=
  ∀ (events : List (PoolEvent Outcome)) (last : Pool Outcome),
    run (Pool.step count) (Pool.start limit count) events = some last →
      limit.exceededBy last.inFlight = false ∧
      last.started.Nodup ∧
      (last.IsOver → ∀ item < count, item ∈ last.started ∧
        ∃ outcome, (item, outcome) ∈ last.ended ∧ last.results[item]? = some (some outcome)) ∧
      (¬last.IsOver → ∃ lane, (Pool.step count last (.turn lane)).isSome = true ∨
        ∀ outcome, (Pool.step count last (.settle lane outcome)).isSome = true) ∧
      events.length ≤ 2 * count + last.lanes.length

/-! ### The gate -/

/-- The gate, with the calls that wait, those a place was handed to, and those at work; how many
came; those that had to wait, in the order they came, and those of them that began, in the order
they began; and those that ended. -/
structure Gate where
  running : Nat
  waiting : List Nat
  handed : List Nat
  atWork : List Nat
  came : Nat
  queued : List Nat
  begun : List Nat
  ended : List Nat
  deriving DecidableEq, Repr

inductive GateEvent
  | call
  /-- The first call that a place was handed to goes on. -/
  | begin_
  /-- The work of a call returns, or throws. -/
  | end_ (call : Nat) (threw : Bool)

def Gate.start : Gate := ⟨0, [], [], [], 0, [], [], []⟩

/-- A place is given back: it goes to the first in line, and stays counted. -/
def Gate.release (gate : Gate) : Gate :=
  match gate.waiting with
  | next :: rest => { gate with waiting := rest, handed := gate.handed ++ [next] }
  | [] => { gate with running := gate.running - 1 }

def Gate.step (limit : Limit) (gate : Gate) : GateEvent → Option Gate
  | .call =>
    if limit.maxOne.reachedBy gate.running then
      some { gate with
        waiting := gate.waiting ++ [gate.came]
        queued := gate.queued ++ [gate.came]
        came := gate.came + 1 }
    else
      some { gate with
        running := gate.running + 1
        atWork := gate.atWork ++ [gate.came]
        came := gate.came + 1 }
  | .begin_ =>
    match gate.handed with
    | [] => none
    | call :: rest =>
      some { gate with
        handed := rest, atWork := gate.atWork ++ [call], begun := gate.begun ++ [call] }
  | .end_ call _ =>
    if call ∈ gate.atWork then
      some (Gate.release
        { gate with atWork := gate.atWork.erase call, ended := gate.ended ++ [call] })
    else none

/-- What a gate promises, whatever the order of its events. -/
def GateHolds (limit : Limit) : Prop :=
  ∀ (events : List GateEvent) (last : Gate), run (Gate.step limit) Gate.start events = some last →
    limit.exceededBy last.atWork.length = false ∧
    last.begun <+: last.queued ∧
    (last.waiting ≠ [] → last.atWork ≠ [] ∨ last.handed ≠ []) ∧
    (last.ended.length = last.came → ∀ count, limit.exceededBy count = false →
      ∃ full, run (Gate.step limit) last (List.replicate count .call) = some full ∧
        full.atWork.length = count)

/-! ### The pool keeps its promises -/

theorem countP_set_add {Item : Type} {test : Item → Bool} {list : List Item} {index : Nat}
    {old : Item} (new : Item) (here : list[index]? = some old) :
    (list.set index new).countP test + (if test old then 1 else 0) =
      list.countP test + if test new then 1 else 0 := by
  obtain ⟨within, same⟩ := List.getElem?_eq_some_iff.mp here
  rw [List.countP_set within, same]
  have counted : (if test old = true then 1 else 0) ≤ list.countP test := by
    split
    · next holds =>
      exact countP_pos_iff.mpr ⟨old, mem_of_getElem? here, holds⟩
    · exact Nat.zero_le _
  omega

variable {limit : Limit} {count : Nat}

/-- What an event does to a pool: a lane takes the next item, or finds none, or its work ends. -/
theorem pool_step_cases {pool next : Pool Outcome} {event : PoolEvent Outcome}
    (taken : pool.step count event = some next) :
    (∃ lane, pool.lanes[lane]? = some .looping ∧ pool.next < count ∧
      next = { pool with
        next := pool.next + 1
        lanes := pool.lanes.set lane (.working pool.next)
        started := pool.started ++ [pool.next] }) ∨
    (∃ lane, pool.lanes[lane]? = some .looping ∧ count ≤ pool.next ∧
      next = { pool with lanes := pool.lanes.set lane .over_ }) ∨
    ∃ lane item outcome, pool.lanes[lane]? = some (.working item) ∧
      next = { pool with
        lanes := pool.lanes.set lane .looping
        results := pool.results.set item (some outcome)
        ended := pool.ended ++ [(item, outcome)] } := by
  cases event with
  | turn lane =>
    rw [Pool.step] at taken
    split at taken
    · next here =>
      split at taken
      · next more => exact .inl ⟨lane, here, more, (Option.some.inj taken).symm⟩
      · next none_ =>
        exact .inr (.inl ⟨lane, here, Nat.le_of_not_lt none_, (Option.some.inj taken).symm⟩)
    · cases taken
  | settle lane outcome =>
    rw [Pool.step] at taken
    split at taken
    · next item here =>
      exact .inr (.inr ⟨lane, item, outcome, here, (Option.some.inj taken).symm⟩)
    · cases taken

/-- What holds of a pool after every event: each item that was begun is in exactly one lane or has
ended once, and its outcome is at its place. -/
structure PoolKept (count lanes : Nat) (pool : Pool Outcome) : Prop where
  lanes : pool.lanes.length = lanes
  started : pool.started = List.range pool.next
  within : pool.next ≤ count
  results : pool.results.length = count
  once : ∀ item, pool.lanes.countP (fun lane => lane == .working item) +
    (pool.ended.map Prod.fst).count item = if item < pool.next then 1 else 0
  kept : ∀ item outcome, (item, outcome) ∈ pool.ended →
    pool.results[item]? = some (some outcome)
  over_ : .over_ ∈ pool.lanes → pool.next = count

theorem PoolKept.start (limit : Limit) (count : Nat) :
    PoolKept count (laneCount limit count) (Pool.start limit count : Pool Outcome) where
  lanes := length_replicate
  started := rfl
  within := Nat.zero_le _
  results := length_replicate
  once := by
    intro item
    have none_ : (List.replicate (laneCount limit count) Lane.looping).countP
        (fun lane => lane == .working item) = 0 := by
      rw [countP_replicate]
      rfl
    simp only [Pool.start, none_, map_nil, count_nil, Nat.not_lt_zero, if_false]
  kept := fun _ _ member => nomatch member
  over_ := fun member => nomatch (eq_of_mem_replicate member)

/-- An event keeps what holds of a pool. -/
theorem PoolKept.step {lanes : Nat} {pool next : Pool Outcome} {event : PoolEvent Outcome}
    (kept : PoolKept count lanes pool) (taken : pool.step count event = some next) :
    PoolKept count lanes next := by
  obtain ⟨lane, here, more, rfl⟩ | ⟨lane, here, none_, rfl⟩ | ⟨lane, item, outcome, here, rfl⟩ :=
    pool_step_cases taken
  · refine ⟨by rw [length_set, kept.lanes], ?started, more, kept.results, ?once, kept.kept,
      ?over_⟩
    case started => rw [kept.started, range_succ]
    case once =>
      intro item
      have before := kept.once item
      have set_ := @countP_set_add _ (fun lane => lane == .working item) _ _ _
        (.working pool.next) here
      by_cases same : pool.next = item
      · subst same
        simp only [beq_self_eq_true, if_true, Nat.lt_irrefl, if_false, beq_iff_eq, reduceCtorEq,
          Nat.lt_succ_self] at before set_ ⊢
        omega
      · have other : (Lane.working pool.next == Lane.working item) = false := by
          rw [beq_eq_false_iff_ne]
          exact fun equal => same (Lane.working.inj equal)
        simp only [other, Bool.false_eq_true, if_false, beq_iff_eq, reduceCtorEq] at before set_ ⊢
        have bound : item < pool.next + 1 ↔ item < pool.next := by omega
        simp only [bound]
        omega
    case over_ =>
      intro member
      rcases mem_or_eq_of_mem_set member with there | new
      · have full := kept.over_ there
        omega
      · cases new
  · refine ⟨by rw [length_set, kept.lanes], kept.started, kept.within, kept.results, ?_,
      kept.kept, fun _ => Nat.le_antisymm kept.within none_⟩
    intro item
    have before := kept.once item
    have set_ := @countP_set_add _ (fun lane => lane == .working item) _ _ _ .over_ here
    simp only [beq_iff_eq, reduceCtorEq, if_false] at before set_ ⊢
    omega
  · have set_ (other : Nat) := @countP_set_add _ (fun lane => lane == .working other) _ _ _
      .looping here
    -- the work is in this lane alone, and so it has not ended before
    have unended : item ∉ pool.ended.map Prod.fst := by
      have before := kept.once item
      have here_ : 0 < pool.lanes.countP fun lane => lane == .working item :=
        countP_pos_iff.mpr ⟨_, mem_of_getElem? here, beq_self_eq_true _⟩
      rw [← count_eq_zero]
      split at before <;> omega
    have place : item < pool.results.length := by
      have before := kept.once item
      have here_ : 0 < pool.lanes.countP fun lane => lane == .working item :=
        countP_pos_iff.mpr ⟨_, mem_of_getElem? here, beq_self_eq_true _⟩
      have within := kept.within
      rw [kept.results]
      split at before <;> omega
    refine ⟨by rw [length_set, kept.lanes], kept.started, kept.within,
      by rw [length_set, kept.results], ?once, ?kept, ?over_⟩
    case once =>
      intro other
      have before := kept.once other
      have moved := set_ other
      rw [map_append, count_append, map_singleton, count_singleton]
      by_cases same : item = other
      · subst same
        simp only [beq_self_eq_true, if_true, beq_iff_eq, reduceCtorEq, if_false] at before moved ⊢
        omega
      · have different : (Lane.working item == Lane.working other) = false := by
          rw [beq_eq_false_iff_ne]
          exact fun equal => same (Lane.working.inj equal)
        simp only [different, Bool.false_eq_true, if_false, beq_iff_eq, reduceCtorEq, same]
          at before moved ⊢
        omega
    case kept =>
      intro other otherOutcome member
      rcases mem_append.mp member with there | new
      · have apart : item ≠ other := by
          rintro rfl
          exact unended (List.mem_map.mpr ⟨_, there, rfl⟩)
        rw [getElem?_set_ne apart]
        exact kept.kept other otherOutcome there
      · obtain ⟨rfl, rfl⟩ := Prod.mk.inj (mem_singleton.mp new)
        rw [getElem?_set_self place]
    case over_ =>
      intro member
      rcases mem_or_eq_of_mem_set member with there | new
      · exact kept.over_ there
      · cases new

/-- What is left to happen in a pool. -/
def Pool.left (count : Nat) (pool : Pool Outcome) : Nat :=
  2 * (count - pool.next) + pool.inFlight + pool.lanes.countP fun lane => lane != .over_

/-- Every event leaves one thing less to happen. -/
theorem left_step {pool next : Pool Outcome} {event : PoolEvent Outcome}
    (taken : pool.step count event = some next) : next.left count + 1 = pool.left count := by
  obtain ⟨lane, here, more, rfl⟩ | ⟨lane, here, none_, rfl⟩ | ⟨lane, item, outcome, here, rfl⟩ :=
    pool_step_cases taken
  · have working := @countP_set_add _ Lane.isWorking _ _ _ (.working pool.next) here
    have open_ := @countP_set_add _ (fun lane => lane != .over_) _ _ _ (.working pool.next) here
    simp only [Lane.isWorking, Bool.false_eq_true, if_false, if_true, bne_iff_ne, ne_eq,
      reduceCtorEq, not_false_eq_true] at working open_
    unfold Pool.left Pool.inFlight
    simp only
    omega
  · have working := @countP_set_add _ Lane.isWorking _ _ _ .over_ here
    have open_ := @countP_set_add _ (fun lane => lane != .over_) _ _ _ .over_ here
    simp only [Lane.isWorking, Bool.false_eq_true, if_false, if_true, bne_iff_ne, ne_eq,
      reduceCtorEq, not_false_eq_true, not_true] at working open_
    unfold Pool.left Pool.inFlight
    simp only
    omega
  · have working := @countP_set_add _ Lane.isWorking _ _ _ .looping here
    have open_ := @countP_set_add _ (fun lane => lane != .over_) _ _ _ .looping here
    simp only [Lane.isWorking, Bool.false_eq_true, if_false, if_true, bne_iff_ne, ne_eq,
      reduceCtorEq, not_false_eq_true] at working open_
    unfold Pool.left Pool.inFlight
    simp only
    omega

/-- What holds after every event of a run. -/
theorem pool_run {lanes : Nat} {pool last : Pool Outcome} {events : List (PoolEvent Outcome)}
    (kept : PoolKept count lanes pool) (ends : run (Pool.step count) pool events = some last) :
    PoolKept count lanes last ∧ events.length + last.left count = pool.left count := by
  induction events generalizing pool with
  | nil =>
    obtain rfl := Option.some.inj ends
    exact ⟨kept, Nat.zero_add _⟩
  | cons event events inductionHypothesis =>
    obtain ⟨next, taken, rest⟩ := Option.bind_eq_some_iff.mp ends
    obtain ⟨keptLast, fewer⟩ := inductionHypothesis (kept.step taken) rest
    have one := left_step taken
    exact ⟨keptLast, by rw [length_cons]; omega⟩

/-- There are lanes, and no more of them than the limit. -/
theorem laneCount_within (count : Nat) (number : limit ≠ .nan) :
    1 ≤ laneCount limit count ∧ ∀ fewer ≤ laneCount limit count,
      limit.exceededBy fewer = false := by
  have least (value : ℚ) : 1 ≤ min ⌊max 1 value⌋.toNat (2 ^ 53 - 1) := by
    have one : (1 : Int) ≤ ⌊max 1 value⌋ := Int.le_floor.mpr (by
      rw [Int.cast_one]
      exact le_max_left _ _)
    exact Nat.le_min.mpr ⟨by omega, by decide⟩
  have most {value bound : ℚ} (under : value ≤ bound) {fewer : Nat}
      (few : fewer ≤ min ⌊max 1 value⌋.toNat (2 ^ 53 - 1)) : ¬max 1 bound < fewer := by
    have one : (1 : Int) ≤ ⌊max 1 value⌋ := Int.le_floor.mpr (by
      rw [Int.cast_one]
      exact le_max_left _ _)
    have floor : (fewer : Int) ≤ ⌊max 1 value⌋ := by
      have := few.trans (Nat.min_le_left _ _)
      omega
    have count : (fewer : ℚ) ≤ max 1 value := by
      have := Int.le_floor.mp floor
      rwa [Int.cast_natCast] at this
    exact not_lt.mpr (count.trans (max_le_max (le_refl _) under))
  cases limit with
  | nan => exact absurd rfl number
  | minusInfinity =>
    have one : laneCount .minusInfinity count = 1 := by
      show min ⌊(1 : ℚ)⌋.toNat (2 ^ 53 - 1) = 1
      rw [Int.floor_one]
      rfl
    rw [one]
    exact ⟨le_refl _, fun fewer few => decide_eq_false (not_lt.mpr (by exact_mod_cast few))⟩
  | finite value =>
    exact ⟨least _, fun fewer few => decide_eq_false (most (min_le_left value count) few)⟩
  | infinity => exact ⟨least _, fun _ _ => rfl⟩

/-- A pool keeps its promises exactly where its limit is a number, or there is nothing to do. -/
theorem poolHolds_iff (Outcome : Type) (limit : Limit) (count : Nat) :
    PoolHolds Outcome limit count ↔ limit ≠ .nan ∨ count = 0 := by
  constructor
  · intro holds
    by_contra neither
    obtain ⟨isNan, some_⟩ := not_or.mp neither
    obtain rfl := not_not.mp isNan
    obtain ⟨_, _, over_, _⟩ := holds [] (Pool.start .nan count) rfl
    have begun := over_ (fun _ member => nomatch member) 0 (Nat.pos_of_ne_zero some_)
    exact absurd begun.1 not_mem_nil
  · intro number events last ends
    obtain ⟨kept, length⟩ := pool_run (PoolKept.start limit count) ends
    have flight : last.inFlight ≤ laneCount limit count := by
      rw [← kept.lanes]
      exact countP_le_length
    have allOver (over_ : last.IsOver) (some_ : 0 < count) : last.next = count := by
      rcases number with number | none_
      · have lanes := (laneCount_within count number).1
        rw [← kept.lanes] at lanes
        obtain ⟨lane, rest, is_⟩ := exists_cons_of_length_pos lanes
        have member : lane ∈ last.lanes := is_ ▸ mem_cons_self
        exact kept.over_ (over_ lane member ▸ member)
      · omega
    refine ⟨?bound, ?once, ?all, ?going, ?length⟩
    case bound =>
      by_cases isNan : limit = .nan
      · subst isNan
        rfl
      · exact (laneCount_within count isNan).2 _ flight
    case once =>
      rw [kept.started]
      exact nodup_range
    case all =>
      intro over_ item few
      have whole := allOver over_ (Nat.zero_lt_of_lt few)
      refine ⟨by rw [kept.started, whole]; exact mem_range.mpr few, ?_⟩
      have once := kept.once item
      have idle : last.lanes.countP (fun lane => lane == .working item) = 0 := by
        rw [countP_eq_zero]
        intro lane member
        rw [over_ lane member]
        exact Bool.false_ne_true
      rw [idle, whole, if_pos few, Nat.zero_add] at once
      have ended : item ∈ last.ended.map Prod.fst := count_pos_iff.mp (by omega)
      obtain ⟨⟨_, outcome⟩, member, rfl⟩ := List.mem_map.mp ended
      exact ⟨outcome, member, kept.kept _ outcome member⟩
    case going =>
      intro open_
      obtain ⟨lane, member, notOver⟩ : ∃ lane ∈ last.lanes, lane ≠ .over_ := by
        by_contra none_
        exact open_ fun lane member => by
          by_contra notOver
          exact none_ ⟨lane, member, notOver⟩
      obtain ⟨index, here⟩ := mem_iff_getElem?.mp member
      cases lane with
      | looping =>
        refine ⟨index, .inl ?_⟩
        unfold Pool.step
        simp only [here]
        split <;> rfl
      | working item =>
        refine ⟨index, .inr fun outcome => ?_⟩
        unfold Pool.step
        simp only [here]
        rfl
      | over_ => exact absurd rfl notOver
    case length =>
      have whole : (Pool.start limit count : Pool Outcome).left count =
          2 * count + laneCount limit count := by
        unfold Pool.left Pool.inFlight Pool.start
        simp only [countP_replicate, Lane.isWorking, Bool.false_eq_true, if_false, bne_iff_ne,
          ne_eq, reduceCtorEq, not_false_eq_true, if_true, Nat.sub_zero, Nat.add_zero]
      rw [kept.lanes]
      omega

/-! ### The gate keeps its promises -/

/-- What an event does to a gate. -/
theorem gate_step_cases {gate next : Gate} {event : GateEvent}
    (taken : gate.step limit event = some next) :
    (limit.maxOne.reachedBy gate.running = true ∧
      next = { gate with
        waiting := gate.waiting ++ [gate.came]
        queued := gate.queued ++ [gate.came]
        came := gate.came + 1 }) ∨
    (limit.maxOne.reachedBy gate.running = false ∧
      next = { gate with
        running := gate.running + 1
        atWork := gate.atWork ++ [gate.came]
        came := gate.came + 1 }) ∨
    (∃ call rest, gate.handed = call :: rest ∧
      next = { gate with
        handed := rest, atWork := gate.atWork ++ [call], begun := gate.begun ++ [call] }) ∨
    ∃ call, call ∈ gate.atWork ∧
      ((∃ first rest, gate.waiting = first :: rest ∧
        next = { gate with
          atWork := gate.atWork.erase call
          ended := gate.ended ++ [call]
          waiting := rest
          handed := gate.handed ++ [first] }) ∨
      (gate.waiting = [] ∧
        next = { gate with
          atWork := gate.atWork.erase call
          ended := gate.ended ++ [call]
          running := gate.running - 1 })) := by
  cases event with
  | call =>
    rw [Gate.step] at taken
    split at taken
    · next reached => exact .inl ⟨reached, (Option.some.inj taken).symm⟩
    · next room =>
      exact .inr (.inl ⟨(Bool.not_eq_true _).mp room, (Option.some.inj taken).symm⟩)
  | begin_ =>
    rw [Gate.step] at taken
    split at taken
    · cases taken
    · next call rest handed =>
      exact .inr (.inr (.inl ⟨call, rest, handed, (Option.some.inj taken).symm⟩))
  | end_ call threw =>
    rw [Gate.step] at taken
    split at taken
    · next member =>
      refine .inr (.inr (.inr ⟨call, member, ?_⟩))
      rw [Gate.release] at taken
      split at taken
      · next first rest waiting =>
        exact .inl ⟨first, rest, waiting, (Option.some.inj taken).symm⟩
      · next none_ => exact .inr ⟨none_, (Option.some.inj taken).symm⟩
    · cases taken

/-- What holds of a gate after every event: the places counted are the ones that are taken or
handed over, no more of them than were free, and who waits does so because none was free. -/
structure GateKept (limit : Limit) (gate : Gate) : Prop where
  counted : gate.running = gate.atWork.length + gate.handed.length
  order : gate.queued = gate.begun ++ gate.handed ++ gate.waiting
  full : gate.waiting ≠ [] → limit.maxOne.reachedBy gate.running = true
  free : gate.running = 0 ∨ limit.maxOne.reachedBy (gate.running - 1) = false
  all : gate.came = gate.ended.length + gate.atWork.length + gate.handed.length +
    gate.waiting.length

theorem Limit.reachedBy_mono {fewer more : Nat} (few : fewer ≤ more)
    (reached : limit.reachedBy fewer = true) : limit.reachedBy more = true := by
  cases limit with
  | nan => exact reached
  | minusInfinity => rfl
  | finite value =>
    have least : value ≤ fewer := of_decide_eq_true reached
    exact decide_eq_true (least.trans (by exact_mod_cast few))
  | infinity => exact reached

theorem Limit.reachedBy_zero (limit : Limit) : limit.maxOne.reachedBy 0 = false := by
  have none_ (value : ℚ) (least : 1 ≤ value) : (Limit.finite value).reachedBy 0 = false := by
    refine decide_eq_false (not_le.mpr ?_)
    exact lt_of_lt_of_le (by norm_num) least
  cases limit with
  | nan => rfl
  | minusInfinity => exact none_ 1 (le_refl _)
  | finite value => exact none_ _ (le_max_left _ _)
  | infinity => rfl

/-- An event keeps what holds of a gate. -/
theorem GateKept.step {gate next : Gate} {event : GateEvent} (kept : GateKept limit gate)
    (taken : gate.step limit event = some next) :
    GateKept limit next := by
  obtain ⟨counted, order, full, free, all⟩ := kept
  obtain ⟨reached, rfl⟩ | ⟨room, rfl⟩ | ⟨call, rest, handed, rfl⟩ | ⟨call, member, ended⟩ :=
    gate_step_cases taken
  · refine ⟨counted, ?_, fun _ => reached, free, ?_⟩
    · simp only [order, append_assoc]
    · simp only [length_append, length_singleton]
      omega
  · refine ⟨?_, order, ?_, .inr room, ?_⟩
    · simp only [length_append, length_singleton]
      omega
    · exact fun some_ => absurd (room.symm.trans (full some_)) Bool.false_ne_true
    · simp only [length_append, length_singleton]
      omega
  · rw [handed] at counted order all
    refine ⟨?_, ?_, full, free, ?_⟩
    · simp only [length_append, length_cons, length_nil] at counted ⊢
      omega
    · simp only [order, append_assoc, cons_append, nil_append]
    · simp only [length_append, length_cons, length_nil] at all ⊢
      omega
  · have fewer := length_erase_of_mem member
    have some_ := length_pos_of_mem member
    rcases ended with ⟨first, rest, waiting, rfl⟩ | ⟨none_, rfl⟩
    · rw [waiting] at order full all
      have reached := full (cons_ne_nil _ _)
      refine ⟨?_, ?_, fun _ => reached, free, ?_⟩
      · simp only [length_append, length_singleton, fewer]
        omega
      · simp only [order, append_assoc, singleton_append]
      · simp only [length_append, length_cons, length_nil, fewer] at all ⊢
        omega
    · refine ⟨?_, order, fun waits => absurd none_ waits, ?_, ?_⟩
      · simp only [fewer]
        omega
      · rcases free with none_ | room
        · omega
        · by_cases last : gate.running - 1 = 0
          · exact .inl last
          · refine .inr ?_
            by_contra reached
            rw [Bool.not_eq_false] at reached
            rw [Limit.reachedBy_mono (Nat.sub_le _ _) reached] at room
            cases room
      · simp only [length_append, length_singleton, fewer]
        omega

theorem gate_run {gate last : Gate} {events : List GateEvent} (kept : GateKept limit gate)
    (ends : run (Gate.step limit) gate events = some last) :
    GateKept limit last :=
  Systems.along_last
    (Systems.along_of_kept (fun _ _ _ kept taken => kept.step taken) kept events) ends

/-- Calls that find a place begin at once. -/
theorem run_calls {limit : Limit} (count : Nat) {gate : Gate}
    (room : ∀ fewer < count, limit.maxOne.reachedBy (gate.running + fewer) = false) :
    ∃ full, run (Gate.step limit) gate (List.replicate count .call) = some full ∧
      full.atWork.length = gate.atWork.length + count := by
  induction count generalizing gate with
  | zero => exact ⟨gate, rfl, rfl⟩
  | succ count inductionHypothesis =>
    have first := room 0 (Nat.succ_pos _)
    rw [Nat.add_zero] at first
    obtain ⟨full, ends, all⟩ := @inductionHypothesis { gate with
      running := gate.running + 1
      atWork := gate.atWork ++ [gate.came]
      came := gate.came + 1 } (by
        intro fewer few
        have later := room (fewer + 1) (Nat.succ_lt_succ few)
        rwa [show gate.running + (fewer + 1) = gate.running + 1 + fewer by omega] at later)
    refine ⟨full, ?_, ?_⟩
    · rw [replicate_succ, run, Gate.step, if_neg (by rw [first]; exact Bool.false_ne_true),
        Option.bind_some, ends]
    · rw [all, length_append, length_singleton]
      omega

/-- A whole limit is not exceeded by one more than a number that has not reached it. -/
theorem Limit.IsWhole.not_exceeded (whole : limit.IsWhole)
    (room : limit.maxOne.reachedBy count = false) : limit.exceededBy (count + 1) = false := by
  have next (value : ℚ) (isWhole : ∃ whole : Int, value = whole)
      (under : (Limit.finite value).reachedBy count = false) : ¬value < (count + 1 : Nat) := by
    obtain ⟨whole, rfl⟩ := isWhole
    have above : ((count : Int) : ℚ) < whole := by
      have := not_le.mp (of_decide_eq_false under)
      exact_mod_cast this
    have least : (count : Int) < whole := by exact_mod_cast above
    refine not_lt.mpr ?_
    exact_mod_cast least
  cases limit with
  | nan => rfl
  | minusInfinity => exact decide_eq_false (next 1 ⟨1, rfl⟩ room)
  | infinity => rfl
  | finite value =>
    refine decide_eq_false (next (max 1 value) ?_ room)
    rcases whole with small | ⟨whole, rfl⟩
    · exact ⟨1, max_eq_left small⟩
    · exact ⟨max 1 whole, by push_cast; rfl⟩

theorem Limit.exceededBy_zero (limit : Limit) : limit.exceededBy 0 = false := by
  have none_ (value : ℚ) (least : 1 ≤ value) : ¬value < (0 : Nat) := by
    rw [Nat.cast_zero]
    exact not_lt.mpr (le_trans zero_le_one least)
  cases limit with
  | nan => rfl
  | minusInfinity => exact decide_eq_false (none_ 1 (le_refl _))
  | finite value => exact decide_eq_false (none_ _ (le_max_left _ _))
  | infinity => rfl

theorem Limit.exceededBy_anti {fewer : Nat} (few : fewer ≤ count)
    (within : limit.exceededBy count = false) : limit.exceededBy fewer = false := by
  have less (value : ℚ) (under : ¬value < count) : ¬value < fewer :=
    not_lt.mpr (le_trans (by exact_mod_cast few) (not_lt.mp under))
  cases limit with
  | nan => rfl
  | minusInfinity => exact decide_eq_false (less 1 (of_decide_eq_false within))
  | finite value => exact decide_eq_false (less _ (of_decide_eq_false within))
  | infinity => rfl

/-- What does not exceed a limit, but for one, has not reached it. -/
theorem Limit.not_reached {fewer : Nat} (within : limit.exceededBy count = false)
    (few : fewer < count) :
    limit.maxOne.reachedBy fewer = false := by
  have below (value : ℚ) (under : ¬value < count) : ¬value ≤ fewer := by
    have less : (fewer : ℚ) < count := by exact_mod_cast few
    exact not_le.mpr (lt_of_lt_of_le less (not_lt.mp under))
  cases limit with
  | nan => rfl
  | minusInfinity => exact decide_eq_false (below 1 (of_decide_eq_false within))
  | finite value => exact decide_eq_false (below _ (of_decide_eq_false within))
  | infinity => rfl

/-- A gate whose limit is past one and not whole lets one more through than the limit. -/
theorem not_gateHolds {value : ℚ} (past : 1 < value) (broken : ∀ whole : Int, value ≠ whole) :
    ¬GateHolds (.finite value) := by
  intro holds
  have same : max 1 value = value := max_eq_right past.le
  have floor : ((⌊value⌋.toNat : Nat) : ℚ) = (⌊value⌋ : ℚ) := by
    have least : 0 ≤ ⌊value⌋ := Int.floor_nonneg.mpr (le_trans zero_le_one past.le)
    rw [← Int.cast_natCast, Int.toNat_of_nonneg least]
  have under : (⌊value⌋ : ℚ) < value :=
    lt_of_le_of_ne (Int.floor_le value) (Ne.symm (broken ⌊value⌋))
  obtain ⟨full, ends, all⟩ := @run_calls (.finite value) (⌊value⌋.toNat + 1) Gate.start (by
    intro fewer few
    refine decide_eq_false (not_le.mpr ?_)
    have most : (fewer : ℚ) ≤ (⌊value⌋.toNat : Nat) := by exact_mod_cast Nat.le_of_lt_succ few
    rw [same]
    simp only [Gate.start, Nat.zero_add]
    exact lt_of_le_of_lt (most.trans floor.le) under)
  have within := (holds _ full ends).1
  rw [all] at within
  refine of_decide_eq_false within ?_
  rw [same]
  simp only [Gate.start, length_nil, Nat.zero_add]
  push_cast
  rw [floor]
  exact Int.lt_floor_add_one value

/-- A gate keeps its promises exactly where its limit is whole, at most one, or no bound. -/
theorem gateHolds_iff (limit : Limit) : GateHolds limit ↔ limit.IsWhole := by
  constructor
  · intro holds
    cases limit with
    | nan => trivial
    | minusInfinity => trivial
    | infinity => trivial
    | finite value =>
      by_contra broken
      obtain ⟨past, fraction⟩ := not_or.mp broken
      exact not_gateHolds (not_le.mp past) (fun whole same => fraction ⟨whole, same⟩) holds
  · intro whole events last ends
    have kept : GateKept limit last :=
      gate_run ⟨rfl, rfl, fun some_ => absurd rfl some_, .inl rfl, rfl⟩ ends
    obtain ⟨counted, order, full, free, all⟩ := kept
    have bound : limit.exceededBy last.running = false := by
      rcases free with none_ | room
      · rw [none_]
        exact limit.exceededBy_zero
      · have next := whole.not_exceeded room
        by_cases none_ : last.running = 0
        · rw [none_]
          exact limit.exceededBy_zero
        · rwa [Nat.sub_add_cancel (Nat.pos_of_ne_zero none_)] at next
    refine ⟨?bound, ?order, ?going, ?free⟩
    case bound =>
      exact Limit.exceededBy_anti (by omega) bound
    case order =>
      rw [order, append_assoc]
      exact prefix_append _ _
    case going =>
      intro some_
      by_contra idle
      obtain ⟨noWork, noneHanded⟩ := not_or.mp idle
      have reached := full some_
      rw [counted, not_not.mp noWork, not_not.mp noneHanded] at reached
      rw [length_nil, Nat.add_zero, limit.reachedBy_zero] at reached
      cases reached
    case free =>
      intro over_ count within
      have none_ : last.running = 0 ∧ last.atWork.length = 0 := by omega
      obtain ⟨later, runs, work⟩ := @run_calls limit count last (by
        intro fewer few
        rw [none_.1, Nat.zero_add]
        exact Limit.not_reached within few)
      exact ⟨later, runs, by rw [work, none_.2, Nat.zero_add]⟩

/-- A gate for two and a half lets three calls through at once. -/
theorem gate_of_two_and_a_half : ¬GateHolds (.finite (5 / 2)) := by
  intro holds
  have three : run (Gate.step (.finite (5 / 2))) Gate.start [.call, .call, .call] =
      some ⟨3, [], [], [0, 1, 2], 3, [], [], []⟩ := by decide +kernel
  have exceeded : (Limit.finite (5 / 2)).exceededBy 3 = true := by decide +kernel
  exact absurd ((holds _ _ three).1.symm.trans exceeded) Bool.false_ne_true

/-- Where bounded work keeps its promises: a pool, whenever its limit is a number or there is
nothing to do; a gate, whenever its limit is whole, at most one, or no bound. -/
theorem lanes_and_turns_iff (Outcome : Type) (limit : Limit) (count : Nat) :
    (PoolHolds Outcome limit count ↔ limit ≠ .nan ∨ count = 0) ∧
      (GateHolds limit ↔ limit.IsWhole) :=
  ⟨poolHolds_iff Outcome limit count, gateHolds_iff limit⟩

end Geeboard.Panel.Concurrency
