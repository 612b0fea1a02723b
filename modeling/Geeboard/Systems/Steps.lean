/-
This file is about systems that take one step after another.

A step function says what an event does to a state, or that it cannot happen
there. A run is a list of events. "In every state of the run" and "at every step
of the run" are two ways of going along it, and the facts here turn what one step
keeps into what a whole run keeps: under a condition on its steps, or exactly
under it.
-/

import Mathlib.Data.List.Basic

namespace Systems

open Option

variable {State Event : Type} (step : State → Event → Option State)

/-- The state a run ends in, when each of its events can happen. -/
def run : State → List Event → Option State
  | state, [] => some state
  | state, event :: events => (step state event).bind fun next => run next events

/-- Every state a run passes through, the first and the last included, is as described. -/
def Along (holds : State → Prop) : State → List Event → Prop
  | state, [] => holds state
  | state, event :: events =>
    holds state ∧ ∀ next, step state event = some next → Along holds next events

/-- Every step of a run is taken as described. -/
def Meets (condition : State → Event → Prop) : State → List Event → Prop
  | _, [] => True
  | state, event :: events =>
    condition state event ∧ ∀ next, step state event = some next → Meets condition next events

variable {step} {holds kept : State → Prop} {condition : State → Event → Prop}

/-- Whether the steps of a run are taken as described can be computed when it can be for a step. -/
instance Meets.decidable [∀ state event, Decidable (condition state event)] :
    ∀ (state : State) (events : List Event), Decidable (Meets step condition state events)
  | _, [] => inferInstanceAs (Decidable True)
  | state, event :: events =>
    let _ : Decidable (∀ next, step state event = some next → Meets step condition next events) :=
      match step state event with
      | none => .isTrue fun next same => absurd same.symm (some_ne_none next)
      | some next =>
        have _ := Meets.decidable next events
        decidable_of_iff (Meets step condition next events)
          ⟨fun meets _ same => some.inj same ▸ meets, fun meets => meets next rfl⟩
    inferInstanceAs (Decidable (_ ∧ _))

@[simp] theorem run_nil (state : State) : run step state [] = some state := rfl

theorem run_append (state : State) (first rest : List Event) :
    run step state (first ++ rest) =
      (run step state first).bind fun middle => run step middle rest := by
  induction first generalizing state with
  | nil => rfl
  | cons event first inductionHypothesis =>
    simp only [List.cons_append, run, bind_assoc, inductionHypothesis]

variable {state : State} {events : List Event}

theorem along_head (along : Along step holds state events) :
    holds state := by
  cases events with
  | nil => exact along
  | cons event events => exact along.1

theorem Along.mono {weaker : State → Prop} (implies : ∀ state, holds state → weaker state)
    (along : Along step holds state events) :
    Along step weaker state events := by
  induction events generalizing state with
  | nil => exact implies state along
  | cons event events inductionHypothesis =>
    exact ⟨implies state along.1, fun next taken => inductionHypothesis (along.2 next taken)⟩

/-- What holds along a run holds where it ends. -/
theorem along_last {last : State} (along : Along step holds state events)
    (ends : run step state events = some last) :
    holds last := by
  induction events generalizing state with
  | nil =>
    cases ends
    exact along
  | cons event events inductionHypothesis =>
    obtain ⟨next, taken, rest⟩ := bind_eq_some_iff.mp ends
    exact inductionHypothesis (along.2 next taken) rest

/-- A step taken as described, and the rest of the run from where it leads. -/
theorem meets_cons {next : State} {event : Event} (met : condition state event)
    (taken : step state event = some next) (rest : Meets step condition next events) :
    Meets step condition state (event :: events) := by
  refine ⟨met, fun other same => ?_⟩
  obtain rfl := some.inj (taken.symm.trans same)
  exact rest

/-- A run that goes on where another one ends is taken as described when both are. -/
theorem Meets.append {middle : State} {first rest : List Event}
    (meets : Meets step condition state first) (ends : run step state first = some middle)
    (goes : Meets step condition middle rest) : Meets step condition state (first ++ rest) := by
  induction first generalizing state with
  | nil =>
    cases ends
    exact goes
  | cons event events inductionHypothesis =>
    obtain ⟨next, taken, rest⟩ := bind_eq_some_iff.mp ends
    exact meets_cons meets.1 taken (inductionHypothesis (meets.2 next taken) rest)

theorem Meets.and {other : State → Event → Prop} (meets : Meets step condition state events)
    (also_ : Meets step other state events) :
    Meets step (fun state event => condition state event ∧ other state event) state events := by
  induction events generalizing state with
  | nil => trivial
  | cons event events inductionHypothesis =>
    exact ⟨⟨meets.1, also_.1⟩,
      fun next taken => inductionHypothesis (meets.2 next taken) (also_.2 next taken)⟩

/-- What every event of a run is, its steps' condition may use. -/
theorem Meets.with_mem {good : Event → Prop} (meets : Meets step condition state events)
    (each : ∀ event ∈ events, good event) :
    Meets step (fun state event => condition state event ∧ good event) state events := by
  induction events generalizing state with
  | nil => trivial
  | cons event events inductionHypothesis =>
    obtain ⟨here, there⟩ := List.forall_mem_cons.mp each
    exact ⟨⟨meets.1, here⟩, fun next taken => inductionHypothesis (meets.2 next taken) there⟩

/-- What every step taken as described keeps holds along a run of such steps. -/
theorem along_of_meets (kept : ∀ state event next, holds state → condition state event →
      step state event = some next → holds next) (start : holds state)
    (meets : Meets step condition state events) : Along step holds state events := by
  induction events generalizing state with
  | nil => exact start
  | cons event events inductionHypothesis =>
    refine ⟨start, fun next taken => ?_⟩
    exact inductionHypothesis (kept state event next start meets.1 taken) (meets.2 next taken)

/-- What every step keeps holds along every run. -/
theorem along_of_kept
    (kept : ∀ state event next, holds state → step state event = some next → holds next)
    (start : holds state) (events : List Event) :
    Along step holds state events := by
  induction events generalizing state with
  | nil => exact start
  | cons event events inductionHypothesis =>
    exact ⟨start, fun next taken => inductionHypothesis (kept state event next start taken)⟩

/-- When a step that can happen leads from a state that is as described to another one just when
it is taken as the condition says, a run passes through such states just when all its steps are
taken so. -/
theorem along_iff_meets
    (keeps : ∀ state event next, kept state → holds state → condition state event →
      step state event = some next → kept next)
    (exactly : ∀ state event next, kept state → holds state → step state event = some next →
      (holds next ↔ condition state event))
    (idle : ∀ state event, step state event = none → condition state event)
    {state : State} {events : List Event} (invariant : kept state) (start : holds state) :
    Along step holds state events ↔ Meets step condition state events := by
  induction events generalizing state with
  | nil => exact iff_of_true start trivial
  | cons event events inductionHypothesis =>
    rcases taken : step state event with _ | next
    · refine iff_of_true ⟨start, fun next same => ?_⟩ ⟨idle state event taken, fun next same => ?_⟩
      · rw [taken] at same
        cases same
      · rw [taken] at same
        cases same
    · have same := exactly state event next invariant start taken
      constructor
      · intro along
        have rest := along.2 next taken
        have met := same.mp (along_head rest)
        refine ⟨met, fun other takenOther => ?_⟩
        rw [taken] at takenOther
        cases takenOther
        exact (inductionHypothesis (keeps state event next invariant start met taken)
          (along_head rest)).mp rest
      · intro meets
        have rest := meets.2 next taken
        have held := same.mpr meets.1
        refine ⟨start, fun other takenOther => ?_⟩
        rw [taken] at takenOther
        cases takenOther
        exact (inductionHypothesis (keeps state event next invariant start meets.1 taken)
          held).mpr rest

end Systems
