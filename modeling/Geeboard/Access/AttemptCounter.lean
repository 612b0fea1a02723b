/-
This file is about the counter behind attempt limiting: how often a key was tried in
its window, for so many keys at most.

A key is made by whoever sends the request, so the number of keys is bounded by the
counter itself. Expired keys are swept every so often, and past the ceiling the key that
was inserted longest ago is dropped for the new one. The counter is a map, whose order
is the order in which its keys were inserted; every key carries the number of its
insertion beside what the source keeps, so that "longest ago" can be said without the
order.
-/

import Geeboard.Systems.Steps
import Geeboard.Text.Records
import Mathlib.Algebra.Order.Group.Unbundled.Basic
import Mathlib.Data.Rat.Cast.Order
import Mathlib.Tactic.Linarith

namespace Geeboard.Access.AttemptCounter

open List Option
open Systems (run Along)
open Text (Record)

/-! ### The counter -/

/-- What is counted under a key, with the number of the insertion it was made by. -/
structure Bucket where
  count : Nat
  resetAt : ℚ
  inserted : Nat
  deriving DecidableEq, Repr

/-- The most keys that are held, and how long a sweep waits for the next one. -/
structure Options where
  max : Nat
  sweepEvery : ℚ

/-- The counter, with the time its clock was last read at and the number of insertions. -/
structure Counter (Key : Type) where
  buckets : Record Key Bucket
  sweptAt : ℚ
  readAt : Option ℚ
  insertions : Nat

variable {Key : Type} [DecidableEq Key]

namespace Counter

def start : Counter Key := ⟨Record.empty, 0, none, 0⟩

/-- How many keys are held. -/
def size (counter : Counter Key) : Nat := counter.buckets.entries.length

/-- Whether a bucket's window has ended. -/
def expired (now : ℚ) (bucket : Bucket) : Bool := bucket.resetAt ≤ now

def sweep (now : ℚ) (counter : Counter Key) : Counter Key :=
  { counter with
    sweptAt := now
    buckets := counter.buckets.only fun key => !(counter.buckets.get key).any (expired now) }

def delete (key : Key) (counter : Counter Key) : Counter Key :=
  { counter with buckets := counter.buckets.only fun other => other ≠ key }

/-- The key that was inserted first of those that are held. -/
def oldest (counter : Counter Key) : Option Key := counter.buckets.entries.head?.map Prod.fst

def dropOldest (counter : Counter Key) : Counter Key :=
  match counter.oldest with
  | some key => counter.delete key
  | none => counter

/-- The counter after its sweep, when one is due. -/
def swept (options : Options) (now : ℚ) (counter : Counter Key) : Counter Key :=
  if options.max ≤ 2 * counter.size ∧ options.sweepEvery ≤ now - counter.sweptAt then
    counter.sweep now
  else counter

/-- The counter with room for a key. -/
def roomy (options : Options) (counter : Counter Key) : Counter Key :=
  if options.max ≤ counter.size then counter.dropOldest else counter

/-- A key is inserted, behind the others. -/
def insert (key : Key) (resetAt : ℚ) (counter : Counter Key) : Counter Key :=
  let without := counter.delete key
  { without with
    buckets := without.buckets.set key ⟨1, resetAt, counter.insertions⟩
    insertions := counter.insertions + 1 }

/-- Whether a key's next attempt opens a window: it is not held, or its window has ended. -/
def opens (counter : Counter Key) (key : Key) (now : ℚ) : Bool :=
  (counter.buckets.get key).all (expired now)

/-- One more attempt under a key is counted, and the answer is whether it is allowed. -/
def attempt (options : Options) (key : Key) (limit window now : ℚ) (counter : Counter Key) :
    Bool × Counter Key :=
  match counter.buckets.get key with
  | none => (true, ((counter.swept options now).roomy options).insert key (now + window))
  | some bucket =>
    if expired now bucket then
      (true, ((counter.swept options now).roomy options).insert key (now + window))
    else
      (decide ((bucket.count + 1 : ℚ) ≤ limit),
        { counter with
          buckets := counter.buckets.set key { bucket with count := bucket.count + 1 } })

/-- Whether a key has already used its limit. -/
def exhausted (key : Key) (limit now : ℚ) (counter : Counter Key) : Bool :=
  (counter.buckets.get key).any fun bucket => !expired now bucket && limit ≤ bucket.count

end Counter

/-! ### Its runs -/

inductive Event (Key : Type)
  | attempt (key : Key) (now : ℚ)
  | exhausted (key : Key) (now : ℚ)
  | clear (key : Key)

/-- The limit and the window of each key. -/
structure Bounds (Key : Type) where
  limit : Key → ℚ
  window : Key → ℚ

/-- The counter once its clock was read, unless the time had gone back. -/
def Counter.read (now : ℚ) (counter : Counter Key) : Option (Counter Key) :=
  if counter.readAt.all (· ≤ now) then some { counter with readAt := some now } else none

/-- What a call does to the counter. The clock is not read for a key that is not held, when the
question is only whether its limit is used. -/
def Counter.step (options : Options) (bounds : Bounds Key) (counter : Counter Key) :
    Event Key → Option (Counter Key)
  | .attempt key now =>
    (counter.read now).map fun counter =>
      (counter.attempt options key (bounds.limit key) (bounds.window key) now).2
  | .exhausted key now =>
    if (counter.buckets.get key).isSome then counter.read now else some counter
  | .clear key => some (counter.delete key)

/-- Whether a call is an attempt under a key that is allowed. -/
def Counter.allows (options : Options) (bounds : Bounds Key) (key : Key) (counter : Counter Key) :
    Event Key → Bool
  | .attempt other now =>
    other = key && (counter.attempt options key (bounds.limit key) (bounds.window key) now).1
  | _ => false

/-- How many attempts under a key a run allows. -/
def Counter.allowed (options : Options) (bounds : Bounds Key) (key : Key) :
    Counter Key → List (Event Key) → Nat
  | _, [] => 0
  | counter, event :: events =>
    (counter.allows options bounds key event).toNat +
      ((counter.step options bounds event).map fun next =>
        next.allowed options bounds key events).getD 0

def Counter.Holds (key : Key) (counter : Counter Key) : Prop :=
  (counter.buckets.get key).isSome

/-- The attempts under a key that a run counts are made before a time. -/
def Within (key : Key) (until_ : ℚ) (events : List (Event Key)) : Prop :=
  ∀ now, .attempt key now ∈ events → now < until_

/-- What a counter promises, whatever the order of the calls. -/
structure CounterHolds (options : Options) (bounds : Bounds Key) (counter : Counter Key) :
    Prop where
  /-- From the attempt that opens a window, to its end or to where the key is dropped or cleared,
  so many attempts are allowed at most. -/
  limit : ∀ (key : Key) (now : ℚ) (first : Counter Key) (events : List (Event Key)),
    counter.opens key now = true →
    counter.step options bounds (.attempt key now) = some first →
    Along (Counter.step options bounds) (Counter.Holds key) first events →
    Within key (now + bounds.window key) events →
      (counter.allowed options bounds key (.attempt key now :: events) : ℚ) ≤ bounds.limit key
  /-- So many keys are held at most. -/
  ceiling : counter.size ≤ options.max
  /-- A key is cleared, or its window has ended, or it stays, or as many keys are held as may be
  and it was inserted before all the others. -/
  dropped : ∀ (event : Event Key) (next : Counter Key) (key : Key) (bucket : Bucket),
    counter.step options bounds event = some next →
    counter.buckets.get key = some bucket →
      (∃ now other, event = .attempt other now ∧ bucket.resetAt ≤ now) ∨
      event = .clear key ∨
      (∃ kept, next.buckets.get key = some kept ∧ kept.inserted = bucket.inserted) ∨
      (counter.size = options.max ∧ ∀ other held, counter.buckets.get other = some held →
        other ≠ key → bucket.inserted < held.inserted)

/-! ### What each call does to a key -/

namespace Counter

variable {options : Options} {bounds : Bounds Key} {counter next : Counter Key}

theorem get_sweep (now : ℚ) (counter : Counter Key) (key : Key) :
    (counter.sweep now).buckets.get key =
      (counter.buckets.get key).filter fun bucket => !expired now bucket := by
  unfold sweep
  rw [Record.get_only]
  cases counter.buckets.get key with
  | none => exact ite_self none
  | some bucket => rfl

theorem get_delete (key other : Key) (counter : Counter Key) :
    (counter.delete key).buckets.get other =
      if other = key then none else counter.buckets.get other := by
  unfold delete
  rw [Record.get_only]
  by_cases same : other = key
  · rw [if_pos same, if_neg (by simp [same])]
  · rw [if_neg same, if_pos (by simp [same])]

theorem get_insert_self (key : Key) (resetAt : ℚ) (counter : Counter Key) :
    (counter.insert key resetAt).buckets.get key = some ⟨1, resetAt, counter.insertions⟩ :=
  Record.get_set_self _ _ _

theorem get_insert_of_ne {key other : Key} (resetAt : ℚ) (counter : Counter Key)
    (different : other ≠ key) :
    (counter.insert key resetAt).buckets.get other = counter.buckets.get other := by
  unfold insert
  rw [Record.get_set_of_ne _ _ different.symm, get_delete, if_neg different]

theorem get_swept_of_live (options : Options) {now : ℚ} {key : Key} {bucket : Bucket}
    (has : counter.buckets.get key = some bucket) (live : expired now bucket = false) :
    (counter.swept options now).buckets.get key = some bucket := by
  unfold swept
  split
  · rw [get_sweep, has, filter_some, if_pos (by rw [live]; rfl)]
  · exact has

/-- A sweep leaves a key's bucket as it is, or takes it. -/
theorem get_swept (options : Options) (now : ℚ) (counter : Counter Key) (key : Key) :
    (counter.swept options now).buckets.get key = none ∨
      (counter.swept options now).buckets.get key = counter.buckets.get key := by
  unfold swept
  split
  · rw [get_sweep]
    cases counter.buckets.get key with
    | none => exact Or.inl rfl
    | some bucket =>
      rw [filter_some]
      split
      · exact Or.inr rfl
      · exact Or.inl rfl
  · exact Or.inr rfl

/-- Room is made by leaving the buckets as they are, or by taking the oldest key's one. -/
theorem get_roomy (options : Options) (counter : Counter Key) (key : Key) :
    (options.max ≤ counter.size ∧ counter.oldest = some key ∧
        (counter.roomy options).buckets.get key = none) ∨
      (counter.roomy options).buckets.get key = counter.buckets.get key := by
  unfold roomy
  by_cases full : options.max ≤ counter.size
  · rw [if_pos full]
    unfold dropOldest
    cases first : counter.oldest with
    | none => exact Or.inr rfl
    | some old =>
      dsimp only
      rw [get_delete]
      by_cases same : key = old
      · rw [if_pos same]
        exact Or.inl ⟨full, congrArg some same.symm, rfl⟩
      · rw [if_neg same]
        exact Or.inr rfl
  · rw [if_neg full]
    exact Or.inr rfl

/-- An attempt opens a window, or is counted in the one that is open. -/
theorem attempt_cases (options : Options) (key : Key) (limit window now : ℚ)
    (counter : Counter Key) :
    (counter.opens key now = true ∧ counter.attempt options key limit window now =
        (true, ((counter.swept options now).roomy options).insert key (now + window))) ∨
      ∃ bucket, counter.buckets.get key = some bucket ∧ expired now bucket = false ∧
        counter.attempt options key limit window now =
          (decide ((bucket.count + 1 : ℚ) ≤ limit),
            { counter with
              buckets := counter.buckets.set key { bucket with count := bucket.count + 1 } }) := by
  unfold attempt opens
  cases has : counter.buckets.get key with
  | none => exact Or.inl ⟨rfl, rfl⟩
  | some bucket =>
    cases ended : expired now bucket with
    | true => exact Or.inl ⟨ended, if_pos ended⟩
    | false => exact Or.inr ⟨bucket, rfl, ended, if_neg (by rw [ended]; exact Bool.false_ne_true)⟩

omit [DecidableEq Key] in
theorem buckets_of_read {now : ℚ} (read : counter.read now = some next) :
    next = { counter with readAt := some now } := by
  unfold Counter.read at read
  split at read
  · exact (some.inj read).symm
  · cases read

/-- All that a call can do. -/
theorem step_cases {event : Event Key} (taken : counter.step options bounds event = some next) :
    (∃ key now, event = .attempt key now ∧ next =
        (attempt options key (bounds.limit key) (bounds.window key) now
          { counter with readAt := some now }).2) ∨
      (∃ key now, event = .exhausted key now ∧ next.buckets = counter.buckets ∧
        next.insertions = counter.insertions) ∨
      ∃ key, event = .clear key ∧ next = counter.delete key := by
  cases event with
  | attempt key now =>
    obtain ⟨clocked, read, result⟩ := map_eq_some_iff.mp taken
    rw [buckets_of_read read] at result
    exact Or.inl ⟨key, now, rfl, result.symm⟩
  | exhausted key now =>
    unfold step at taken
    dsimp only at taken
    refine Or.inr (Or.inl ⟨key, now, rfl, ?_⟩)
    split at taken
    · rw [buckets_of_read taken]
      exact ⟨rfl, rfl⟩
    · cases taken
      exact ⟨rfl, rfl⟩
  | clear key => exact Or.inr (Or.inr ⟨key, rfl, (some.inj taken).symm⟩)

end Counter

/-! ### The order of the keys, and how many there are -/

namespace Counter

/-- The numbers of the insertions of the keys that are held, in the map's order. -/
def numbers (counter : Counter Key) : List Nat :=
  counter.buckets.entries.map fun entry => entry.2.inserted

/-- The map's order is the order of the insertions, and so many keys are held at most. -/
structure Kept (options : Options) (counter : Counter Key) : Prop where
  ascending : counter.numbers.Pairwise (· < ·)
  below : ∀ number ∈ counter.numbers, number < counter.insertions
  ceiling : counter.size ≤ options.max

variable {options : Options} {bounds : Bounds Key} {counter next : Counter Key}

omit [DecidableEq Key] in
/-- A counter that holds some of the keys of another one is kept as it is. -/
theorem Kept.of_sublist (kept : counter.Kept options)
    (fewer : next.buckets.entries.Sublist counter.buckets.entries)
    (same : next.insertions = counter.insertions) : next.Kept options where
  ascending := kept.ascending.sublist (fewer.map _)
  below := fun number member => same ▸ kept.below number ((fewer.map _).subset member)
  ceiling := fewer.length_le.trans kept.ceiling

omit [DecidableEq Key] in
/-- What counts is the order of the insertions. -/
theorem Kept.of_numbers (kept : counter.Kept options) (numbers : next.numbers = counter.numbers)
    (same : next.insertions = counter.insertions) : next.Kept options where
  ascending := numbers ▸ kept.ascending
  below := fun number member => same ▸ kept.below number (numbers ▸ member)
  ceiling := by
    have lengths := congrArg List.length numbers
    unfold Counter.numbers at lengths
    rw [length_map, length_map] at lengths
    exact lengths.trans_le kept.ceiling

theorem entries_delete (key : Key) (counter : Counter Key) :
    (counter.delete key).buckets.entries.Sublist counter.buckets.entries :=
  filter_sublist

theorem entries_swept (options : Options) (now : ℚ) (counter : Counter Key) :
    (counter.swept options now).buckets.entries.Sublist counter.buckets.entries := by
  unfold swept
  split
  · exact filter_sublist
  · exact Sublist.refl _

theorem entries_roomy (options : Options) (counter : Counter Key) :
    (counter.roomy options).buckets.entries.Sublist counter.buckets.entries := by
  unfold roomy dropOldest
  split
  · split
    · exact entries_delete _ counter
    · exact Sublist.refl _
  · exact Sublist.refl _

theorem insertions_swept (options : Options) (now : ℚ) (counter : Counter Key) :
    (counter.swept options now).insertions = counter.insertions := by
  unfold swept
  split
  · rfl
  · rfl

theorem insertions_roomy (options : Options) (counter : Counter Key) :
    (counter.roomy options).insertions = counter.insertions := by
  unfold roomy dropOldest
  split
  · split
    · rfl
    · rfl
  · rfl

/-- Dropping the oldest key makes room for another one. -/
theorem size_roomy (some_ : 1 ≤ options.max) (kept : counter.Kept options) :
    (counter.roomy options).size < options.max := by
  have ceiling := kept.ceiling
  unfold roomy
  by_cases full : options.max ≤ counter.size
  · rw [if_pos full]
    unfold dropOldest oldest size at *
    cases entries : counter.buckets.entries with
    | nil =>
      rw [entries, length_nil] at full
      omega
    | cons entry rest =>
      refine Nat.lt_of_lt_of_le ?_ ceiling
      show (counter.buckets.entries.filter _).length < _
      refine length_filter_lt_length_iff_exists.mpr ⟨entry, ?_, ?_⟩
      · rw [entries]
        exact mem_cons_self
      · simp
  · rw [if_neg full]
    exact Nat.lt_of_not_le full

theorem Kept.insert (kept : counter.Kept options) (room : counter.size < options.max) (key : Key)
    (resetAt : ℚ) : (counter.insert key resetAt).Kept options := by
  have fewer := entries_delete key counter
  have missing : (counter.delete key).buckets.get key = none := by
    rw [get_delete, if_pos rfl]
  have entries : (counter.insert key resetAt).buckets.entries =
      (counter.delete key).buckets.entries ++ [(key, ⟨1, resetAt, counter.insertions⟩)] :=
    Record.entries_set_of_get_none _ missing
  have without := kept.of_sublist fewer rfl
  have numbers : (counter.insert key resetAt).numbers =
      (counter.delete key).numbers ++ [counter.insertions] := by
    unfold Counter.numbers
    rw [entries, map_append]
    rfl
  constructor
  · rw [numbers]
    refine pairwise_append.mpr ⟨without.ascending, pairwise_singleton _ _, ?_⟩
    intro number member last same
    rw [mem_singleton.mp same]
    exact without.below number member
  · intro number member
    rw [numbers] at member
    show number < counter.insertions + 1
    rcases mem_append.mp member with before | last
    · exact Nat.lt_succ_of_lt (without.below number before)
    · rw [mem_singleton.mp last]
      exact Nat.lt_succ_self _
  · unfold size
    rw [entries, length_append, length_singleton]
    exact Nat.lt_of_le_of_lt fewer.length_le room

theorem Kept.attempt (some_ : 1 ≤ options.max) (kept : counter.Kept options) (key : Key)
    (limit window now : ℚ) :
    (counter.attempt options key limit window now).2.Kept options := by
  rcases attempt_cases options key limit window now counter with
    ⟨-, made⟩ | ⟨bucket, has, -, made⟩
  · rw [made]
    have afterSweep := kept.of_sublist (entries_swept options now counter)
      (insertions_swept options now counter)
    have afterRoom := afterSweep.of_sublist (entries_roomy options _)
      (insertions_roomy options _)
    exact afterRoom.insert (size_roomy some_ afterSweep) key _
  · rw [made]
    exact kept.of_numbers (Record.map_entries_set Bucket.inserted has rfl) rfl

theorem Kept.step (some_ : 1 ≤ options.max) (kept : counter.Kept options) {event : Event Key}
    (taken : counter.step options bounds event = some next) : next.Kept options := by
  rcases step_cases taken with ⟨key, now, -, rfl⟩ | ⟨key, now, -, same, numbers⟩ | ⟨key, -, rfl⟩
  · have clocked : Kept options { counter with readAt := some now } :=
      kept.of_sublist (Sublist.refl _) rfl
    exact clocked.attempt some_ key _ _ now
  · exact kept.of_sublist (same ▸ Sublist.refl _) numbers
  · exact kept.of_sublist (entries_delete key counter) rfl

omit [DecidableEq Key] in
theorem kept_start (options : Options) : (start : Counter Key).Kept options where
  ascending := List.Pairwise.nil
  below := fun _ member => absurd member not_mem_nil
  ceiling := Nat.zero_le _

/-- The first key of the map was inserted before all the others. -/
theorem Kept.oldest_lt (kept : counter.Kept options) {key other : Key} {bucket held : Bucket}
    (first : counter.oldest = some key) (has : counter.buckets.get key = some bucket)
    (others : counter.buckets.get other = some held) (different : other ≠ key) :
    bucket.inserted < held.inserted := by
  have inside := Record.mem_of_get has
  have there := Record.mem_of_get others
  have ascending := kept.ascending
  have distinct := counter.buckets.distinct
  unfold oldest at first
  unfold numbers at ascending
  cases entries : counter.buckets.entries with
  | nil =>
    rw [entries] at inside
    cases inside
  | cons entry rest =>
    rw [entries] at inside there ascending distinct first
    have named : entry.1 = key := some.inj first
    have is : (key, bucket) = entry := by
      rcases mem_cons.mp inside with here | later
      · exact here
      · refine absurd ?_ (nodup_cons.mp distinct).1
        rw [named]
        exact List.mem_map_of_mem later
    rcases mem_cons.mp there with here | later
    · exact absurd ((congrArg Prod.fst here).trans named) different
    · have before := (pairwise_cons.mp ascending).1 held.inserted
        (List.mem_map.mpr ⟨_, later, rfl⟩)
      rwa [← is] at before

end Counter

/-! ### What is promised -/

namespace Counter

variable {options : Options} {bounds : Bounds Key} {counter next : Counter Key}

/-- The key an attempt inserts takes no other key's bucket but the oldest one's. -/
theorem get_attempt_of_ne (options : Options) {key other : Key} (limit window now : ℚ)
    (counter : Counter Key) (different : other ≠ key) :
    (counter.attempt options key limit window now).2.buckets.get other = none ∨
      (counter.attempt options key limit window now).2.buckets.get other =
        counter.buckets.get other := by
  rcases attempt_cases options key limit window now counter with
    ⟨-, made⟩ | ⟨bucket, -, -, made⟩
  · rw [made]
    dsimp only
    rw [get_insert_of_ne _ _ different]
    rcases get_roomy options (counter.swept options now) other with ⟨-, -, gone⟩ | same
    · exact Or.inl gone
    · rw [same]
      exact get_swept options now counter other
  · rw [made]
    exact Or.inr (Record.get_set_of_ne _ _ different.symm)

/-- While a key is held, only an attempt under it changes its bucket. -/
theorem get_step_of_held {event : Event Key} {key : Key}
    (taken : counter.step options bounds event = some next) (held : next.Holds key)
    (other : ∀ now, event ≠ .attempt key now) :
    next.buckets.get key = counter.buckets.get key := by
  unfold Holds at held
  rcases step_cases taken with
    ⟨tried, now, rfl, rfl⟩ | ⟨asked, now, -, same, -⟩ | ⟨cleared, -, rfl⟩
  · have different : key ≠ tried := fun same => other now (same ▸ rfl)
    rcases get_attempt_of_ne options (bounds.limit tried) (bounds.window tried) now
      { counter with readAt := some now } different with gone | same
    · rw [gone] at held
      cases held
    · exact same
  · rw [same]
  · rw [get_delete] at held ⊢
    by_cases same : key = cleared
    · rw [if_pos same] at held
      cases held
    · rw [if_neg same]

/-- An attempt in an open window is counted there. -/
theorem attempt_of_live (options : Options) {key : Key} {bucket : Bucket} {now : ℚ}
    (limit window : ℚ) (has : counter.buckets.get key = some bucket)
    (live : expired now bucket = false) :
    counter.attempt options key limit window now =
      (decide ((bucket.count + 1 : ℚ) ≤ limit),
        { counter with
          buckets := counter.buckets.set key { bucket with count := bucket.count + 1 } }) := by
  unfold attempt
  rw [has]
  dsimp only
  rw [if_neg (by rw [live]; exact Bool.false_ne_true)]

/-- Over a window no more is allowed than what its limit leaves. -/
theorem allowed_within {key : Key} {until_ : ℚ} {events : List (Event Key)} {bucket : Bucket}
    (has : counter.buckets.get key = some bucket) (ends : bucket.resetAt = until_)
    (held : Along (step options bounds) (Holds key) counter events)
    (within_ : Within key until_ events) :
    counter.allowed options bounds key events = 0 ∨
      (counter.allowed options bounds key events + bucket.count : ℚ) ≤ bounds.limit key := by
  induction events generalizing counter bucket with
  | nil => exact Or.inl rfl
  | cons event events inductionHypothesis =>
    have later : Within key until_ events :=
      fun now member => within_ now (mem_cons_of_mem event member)
    unfold allowed
    by_cases own : ∃ now, event = .attempt key now
    · obtain ⟨now, rfl⟩ := own
      have live : expired now bucket = false := by
        unfold expired
        rw [ends]
        exact decide_eq_false (not_le.mpr (within_ now mem_cons_self))
      have made := attempt_of_live options (bounds.limit key) (bounds.window key)
        has live
      have allows : counter.allows options bounds key (.attempt key now) =
          decide ((bucket.count + 1 : ℚ) ≤ bounds.limit key) := by
        unfold Counter.allows
        dsimp only
        rw [made, decide_eq_true rfl, Bool.true_and]
      rw [allows]
      have rest : ∀ next, counter.step options bounds (.attempt key now) = some next →
          next.allowed options bounds key events = 0 ∨
            (next.allowed options bounds key events + (bucket.count + 1 : ℕ) : ℚ) ≤
              bounds.limit key := by
        intro next taken
        have counted : next.buckets.get key =
            some { bucket with count := bucket.count + 1 } := by
          obtain ⟨clocked, read, rfl⟩ := map_eq_some_iff.mp taken
          have hasToo : ({ counter with readAt := some now } : Counter Key).buckets.get key =
            some bucket := has
          rw [buckets_of_read read, attempt_of_live options _ _ hasToo live]
          exact Record.get_set_self _ _ _
        exact inductionHypothesis counted ends (held.2 next taken) later
      by_cases fits : (bucket.count + 1 : ℚ) ≤ bounds.limit key
      · rw [decide_eq_true fits]
        refine Or.inr ?_
        cases taken : counter.step options bounds (.attempt key now) with
        | none =>
          rw [map_none, getD_none, Bool.toNat_true, Nat.add_zero, Nat.cast_one,
            add_comm]
          exact fits
        | some next =>
          rw [map_some, getD_some, Bool.toNat_true]
          push_cast
          rcases rest next taken with none_ | some_
          · rw [none_, Nat.cast_zero]
            linarith
          · push_cast at some_
            linarith
      · rw [decide_eq_false fits]
        refine Or.inl ?_
        cases taken : counter.step options bounds (.attempt key now) with
        | none => rfl
        | some next =>
          rw [map_some, getD_some, Bool.toNat_false, Nat.zero_add]
          refine (rest next taken).resolve_right fun some_ => fits ?_
          push_cast at some_
          have positive : (0 : ℚ) ≤ next.allowed options bounds key events := Nat.cast_nonneg _
          linarith
    · have never : ∀ now, event ≠ .attempt key now := fun now same => own ⟨now, same⟩
      have allows : counter.allows options bounds key event = false := by
        cases event with
        | attempt other now =>
          have different : other ≠ key := fun same => never now (same ▸ rfl)
          show (decide (other = key) && _) = false
          rw [decide_eq_false different, Bool.false_and]
        | exhausted other now => rfl
        | clear other => rfl
      rw [allows, Bool.toNat_false, Nat.zero_add]
      cases taken : counter.step options bounds event with
      | none => exact Or.inl rfl
      | some next =>
        rw [map_some, getD_some]
        have along := held.2 next taken
        have same := get_step_of_held taken (Systems.along_head along) never
        exact inductionHypothesis (same.trans has) ends along later

/-- A key that goes is cleared, or its window has ended, or it is the oldest of as many keys as
may be held. -/
theorem Kept.dropped (kept : counter.Kept options) {event : Event Key} {key : Key}
    {bucket : Bucket} (taken : counter.step options bounds event = some next)
    (has : counter.buckets.get key = some bucket) :
    (∃ now other, event = .attempt other now ∧ bucket.resetAt ≤ now) ∨
      event = .clear key ∨
      (∃ kept, next.buckets.get key = some kept ∧ kept.inserted = bucket.inserted) ∨
      (counter.size = options.max ∧ ∀ other held, counter.buckets.get other = some held →
        other ≠ key → bucket.inserted < held.inserted) := by
  rcases step_cases taken with
    ⟨tried, now, rfl, rfl⟩ | ⟨asked, now, -, same, -⟩ | ⟨cleared, rfl, rfl⟩
  · by_cases ended : bucket.resetAt ≤ now
    · exact Or.inl ⟨now, tried, rfl, ended⟩
    have live : expired now bucket = false := decide_eq_false ended
    refine Or.inr (Or.inr ?_)
    have hasToo : ({ counter with readAt := some now } : Counter Key).buckets.get key =
      some bucket := has
    have keptToo : Kept options { counter with readAt := some now } := kept.of_numbers rfl rfl
    rcases attempt_cases options tried (bounds.limit tried) (bounds.window tried) now
      { counter with readAt := some now } with ⟨opened, made⟩ | ⟨counted, its, -, made⟩
    · have different : key ≠ tried := by
        rintro rfl
        unfold opens at opened
        rw [hasToo, all_some, live] at opened
        cases opened
      rw [made]
      dsimp only
      rw [get_insert_of_ne _ _ different]
      have remains := get_swept_of_live options hasToo live
      rcases get_roomy options (swept options now { counter with readAt := some now }) key with
        ⟨full, first, -⟩ | same
      · refine Or.inr ?_
        have fewer := entries_swept options now { counter with readAt := some now }
        have all_ := fewer.eq_of_length
          (Nat.le_antisymm fewer.length_le (keptToo.ceiling.trans full))
        refine ⟨Nat.le_antisymm kept.ceiling (full.trans fewer.length_le), ?_⟩
        intro other held others apart
        refine kept.oldest_lt ?_ has others apart
        unfold oldest at first ⊢
        rwa [all_] at first
      · exact Or.inl ⟨bucket, same.trans remains, rfl⟩
    · rw [made]
      refine Or.inl ?_
      by_cases same : key = tried
      · subst same
        obtain rfl := some.inj (its.symm.trans hasToo)
        exact ⟨_, Record.get_set_self _ _ _, rfl⟩
      · exact ⟨bucket, (Record.get_set_of_ne _ _ (Ne.symm same)).trans has, rfl⟩
  · exact Or.inr (Or.inr (Or.inl ⟨bucket, same ▸ has, rfl⟩))
  · refine Or.inr ?_
    by_cases same : cleared = key
    · exact Or.inl (same ▸ rfl)
    · refine Or.inr (Or.inl ⟨bucket, ?_, rfl⟩)
      rw [get_delete, if_neg (Ne.symm same)]
      exact has

/-- From the attempt that opens a window to its end, a key's limit holds. -/
theorem limit_holds {key : Key} {now : ℚ} {first : Counter Key} {events : List (Event Key)}
    (some_ : 1 ≤ bounds.limit key) (opened : counter.opens key now = true)
    (taken : counter.step options bounds (.attempt key now) = some first)
    (held : Along (step options bounds) (Holds key) first events)
    (within_ : Within key (now + bounds.window key) events) :
    (counter.allowed options bounds key (.attempt key now :: events) : ℚ) ≤ bounds.limit key := by
  have begun : ∃ bucket, first.buckets.get key = some bucket ∧
      bucket.resetAt = now + bounds.window key ∧ bucket.count = 1 := by
    obtain ⟨clocked, read, rfl⟩ := map_eq_some_iff.mp taken
    rw [buckets_of_read read]
    rcases attempt_cases options key (bounds.limit key) (bounds.window key) now
      { counter with readAt := some now } with ⟨-, made⟩ | ⟨bucket, its, live, -⟩
    · rw [made]
      exact ⟨_, get_insert_self _ _ _, rfl, rfl⟩
    · have open_ : (some bucket).all (expired now) = true := its ▸ opened
      rw [all_some, live] at open_
      cases open_
  obtain ⟨bucket, has, ends, one⟩ := begun
  have rest := allowed_within has ends held within_
  unfold allowed
  rw [taken, map_some, getD_some]
  have answered : ((counter.allows options bounds key (.attempt key now)).toNat : ℚ) ≤ 1 := by
    exact_mod_cast Bool.toNat_le _
  push_cast
  rcases rest with none_ | more
  · rw [none_, Nat.cast_zero]
    linarith
  · rw [one, Nat.cast_one] at more
    linarith

end Counter

/-- Every counter a run leads to keeps its limits and its ceiling, and drops no key but the
oldest. -/
theorem counterHolds_of_run (options : Options) (bounds : Bounds Key) (some_ : 1 ≤ options.max)
    (limits : ∀ key, 1 ≤ bounds.limit key) (calls : List (Event Key)) (counter : Counter Key)
    (ends : run (Counter.step options bounds) Counter.start calls = some counter) :
    CounterHolds options bounds counter := by
  have along : Along (Counter.step options bounds) (Counter.Kept options) Counter.start calls :=
    Systems.along_of_kept (fun _ _ _ kept taken => kept.step some_ taken)
      (Counter.kept_start options) calls
  have kept : counter.Kept options := Systems.along_last along ends
  constructor
  · exact fun key now first events => Counter.limit_holds (limits key)
  · exact kept.ceiling
  · exact fun event next key bucket => kept.dropped

/-- Two keys where one may be held: the second one's attempt drops the first. -/
def twoKeys : List (Event ℕ) :=
  [.attempt 0 0, .attempt 0 1, .attempt 1 2, .exhausted 1 3, .clear 0]

theorem counterHolds_twoKeys :
    ∃ counter, run (Counter.step ⟨1, 30000⟩ ⟨fun _ => 2, fun _ => 10⟩) Counter.start twoKeys =
        some counter ∧ CounterHolds ⟨1, 30000⟩ ⟨fun _ => 2, fun _ => 10⟩ counter := by
  have goes : (run (Counter.step ⟨1, 30000⟩ ⟨fun _ => 2, fun _ => 10⟩) Counter.start
    twoKeys).isSome := by decide +kernel
  obtain ⟨counter, ends⟩ := isSome_iff_exists.mp goes
  exact ⟨counter, ends, counterHolds_of_run _ _ (le_refl 1) (fun _ => one_le_two) _ _ ends⟩

end Geeboard.Access.AttemptCounter
