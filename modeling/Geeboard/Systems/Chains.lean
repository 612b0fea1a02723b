/-
This file is about following a pointer from place to place.

Every place points to at most one other. A chain that never comes back to a place
ends, after no more steps than there are places; and it never comes back when the
pointers lie in a relation without a circle.
-/

import Mathlib.Data.List.Nodup
import Mathlib.Data.List.Perm.Subperm
import Mathlib.Logic.Relation

namespace Systems

open List Option

variable {Place : Type} (next : Place → Option Place)

/-- Where a chain is after some steps, when it goes that far. -/
def after : Nat → Place → Option Place
  | 0, place => some place
  | count + 1, place => (next place).bind (after count)

/-- A chain that never comes back to a place it was at. -/
def NeverBack (start : Place) : Prop :=
  ∀ early late, early < late → ∀ place, after next early start = some place →
    after next late start ≠ some place

/-- A chain that ends within some steps. -/
def StopsWithin (limit : Nat) (start : Place) : Prop :=
  ∃ count ≤ limit, ∃ last, after next count start = some last ∧ next last = none

variable {next}

theorem after_add (first second : Nat) (start : Place) :
    after next (first + second) start = (after next first start).bind (after next second) := by
  induction first generalizing start with
  | zero => rw [Nat.zero_add, after, bind_some]
  | succ first inductionHypothesis =>
    rw [Nat.add_right_comm, after, after, bind_assoc]
    exact congrArg (Option.bind (next start)) (funext inductionHypothesis)

theorem after_succ (count : Nat) (start : Place) :
    after next (count + 1) start = (after next count start).bind next := by
  rw [after_add]
  refine congrArg (Option.bind (after next count start)) (funext fun place => ?_)
  rw [after]
  cases next place with
  | none => rfl
  | some other => rfl

/-- Steps that lie in a relation lead along it. -/
theorem transGen_of_after {relation : Place → Place → Prop}
    (each : ∀ place other, next place = some other → relation place other) {count : Nat}
    {start last : Place} (goes : after next (count + 1) start = some last) :
    Relation.TransGen relation start last := by
  induction count generalizing last with
  | zero =>
    rw [after_succ, after, bind_some] at goes
    exact Relation.TransGen.single (each start last goes)
  | succ count inductionHypothesis =>
    rw [after_succ] at goes
    obtain ⟨place, before, onward⟩ := bind_eq_some_iff.mp goes
    exact (inductionHypothesis before).tail (each place last onward)

/-- Where pointers lead along, a chain goes. -/
theorem exists_after_of_transGen {start last : Place}
    (leads : Relation.TransGen (fun place other => next place = some other) start last) :
    ∃ count, after next (count + 1) start = some last := by
  induction leads with
  | single onward => exact ⟨0, by rw [after_succ, after, bind_some, onward]⟩
  | tail _ onward inductionHypothesis =>
    obtain ⟨count, here⟩ := inductionHypothesis
    exact ⟨count + 1, by rw [after_succ, here, bind_some, onward]⟩

/-- In a relation without a circle no chain comes back. -/
theorem neverBack_of_noCircle {relation : Place → Place → Prop}
    (each : ∀ place other, next place = some other → relation place other)
    (noCircle : ∀ place, ¬ Relation.TransGen relation place place) (start : Place) :
    NeverBack next start := by
  intro early late less place first again
  obtain ⟨between, rfl⟩ := Nat.exists_eq_add_of_lt less
  rw [Nat.add_assoc, after_add, first, bind_some] at again
  exact noCircle place (transGen_of_after each again)

/-- A chain among some places that never comes back ends within as many steps. -/
theorem stopsWithin_of_neverBack {places : List Place}
    (inside : ∀ place other, next place = some other → other ∈ places) {start : Place}
    (startIn : start ∈ places) (fresh : NeverBack next start) :
    StopsWithin next places.length start := by
  by_contra endless
  have goes (count : Nat) (within : count ≤ places.length) :
      ∃ place ∈ places, after next count start = some place := by
    induction count with
    | zero => exact ⟨start, startIn, rfl⟩
    | succ count inductionHypothesis =>
      obtain ⟨place, -, here⟩ := inductionHypothesis (by omega)
      rcases onward : next place with _ | other
      · exact absurd ⟨count, by omega, place, here, onward⟩ endless
      · refine ⟨other, inside place other onward, ?_⟩
        rw [after_succ, here, bind_some, onward]
  have each (count : Nat) (within : count ≤ places.length) :
      after next count start = some ((after next count start).getD start) := by
    obtain ⟨place, -, here⟩ := goes count within
    rw [here, getD_some]
  have distinct : ((List.range (places.length + 1)).map fun count =>
      (after next count start).getD start).Nodup := by
    refine Nodup.map_on (fun early earlyIn late lateIn same => ?_) nodup_range
    have earlyLe := Nat.le_of_lt_succ (mem_range.mp earlyIn)
    have lateLe := Nat.le_of_lt_succ (mem_range.mp lateIn)
    obtain less | equal | greater := Nat.lt_trichotomy early late
    · exact absurd (same ▸ each late lateLe) (fresh early late less _ (each early earlyLe))
    · exact equal
    · exact absurd (same ▸ each early earlyLe) (fresh late early greater _ (each late lateLe))
  have among : ((List.range (places.length + 1)).map fun count =>
      (after next count start).getD start) ⊆ places := by
    intro place placeIn
    obtain ⟨count, countIn, rfl⟩ := List.mem_map.mp placeIn
    obtain ⟨other, otherIn, here⟩ := goes count (Nat.le_of_lt_succ (mem_range.mp countIn))
    rwa [here, getD_some]
  have fewer := (distinct.subperm among).length_le
  rw [length_map, length_range] at fewer
  omega

end Systems
