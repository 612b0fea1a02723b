/-
This file is about machines that are fed in pieces. A machine takes turns on what
it has been given until it waits for more, stops, or is done. When a turn does not
care what lies behind the part of its input it uses, what the machine makes of an
input does not depend on how the input was cut.

A machine that does the same with something on the side, which may stop it early,
does what the plain machine does, or stops with a beginning of what that does.
-/

import Mathlib.Data.List.Basic

namespace Feeding

open List

/-- Whether a machine goes on with what it has or waits for more. -/
inductive Turn (State : Type) where
  | again (state : State)
  | wait (state : State)

/-- A machine: one turn, how input is added to a state, whether a state looks at no more
input, and how many turns are enough to come to rest. -/
structure Machine (State Byte Stopped : Type) where
  turn : State → Except Stopped (Turn State)
  push : State → List Byte → State
  done : State → Bool
  enough : State → Nat

variable {State Byte Stopped : Type}

namespace Machine

/-- The turns of a machine until it waits, at most so many. -/
def drain (machine : Machine State Byte Stopped) : Nat → State → Except Stopped State
  | 0, state => .ok state
  | turns + 1, state =>
    match machine.turn state with
    | .error stopped => .error stopped
    | .ok (.wait next) => .ok next
    | .ok (.again next) => machine.drain turns next

/-- The turns of a machine until it waits. -/
def settle (machine : Machine State Byte Stopped) (state : State) : Except Stopped State :=
  machine.drain (machine.enough state) state

/-- One piece of input. -/
def feed (machine : Machine State Byte Stopped) (state : State) (piece : List Byte) :
    Except Stopped State :=
  if machine.done state then .ok state else machine.settle (machine.push state piece)

/-- The input, piece by piece. -/
def consume (machine : Machine State Byte Stopped) : State → List (List Byte) →
    Except Stopped State
  | state, [] => .ok state
  | state, piece :: pieces =>
    match machine.feed state piece with
    | .error stopped => .error stopped
    | .ok next => machine.consume next pieces

/-! ### Coming to rest -/

/-- Each turn the machine goes on after leaves it fewer turns. -/
def Ends (machine : Machine State Byte Stopped) : Prop :=
  (∀ state, 0 < machine.enough state) ∧
    ∀ state next, machine.turn state = .ok (.again next) →
      machine.enough next < machine.enough state

theorem drain_enough (machine : Machine State Byte Stopped) (ends : machine.Ends) (turns : Nat)
    (state : State) (many : machine.enough state ≤ turns) :
    machine.drain turns state = machine.settle state := by
  induction turns using Nat.strongRecOn generalizing state with
  | ind turns inductionHypothesis =>
    have positive := ends.1 state
    obtain ⟨few, fewIs⟩ := Nat.exists_eq_succ_of_ne_zero (Nat.pos_iff_ne_zero.mp positive)
    obtain ⟨more, moreIs⟩ := Nat.exists_eq_succ_of_ne_zero
      (Nat.pos_iff_ne_zero.mp (Nat.lt_of_lt_of_le positive many))
    unfold settle
    rw [fewIs, moreIs]
    unfold drain
    split
    · rfl
    · rfl
    · next next turned =>
      have fewer := ends.2 state next turned
      rw [inductionHypothesis more (by omega) next (by omega)]
      by_cases same : few = more
      · rw [same, inductionHypothesis more (by omega) next (by omega)]
      · rw [inductionHypothesis few (by omega) next (by omega)]

/-- Coming to rest, turn by turn. -/
theorem settle_eq (machine : Machine State Byte Stopped) (ends : machine.Ends) (state : State) :
    machine.settle state =
      match machine.turn state with
      | .error stopped => .error stopped
      | .ok (.wait next) => .ok next
      | .ok (.again next) => machine.settle next := by
  obtain ⟨few, fewIs⟩ := Nat.exists_eq_succ_of_ne_zero (Nat.pos_iff_ne_zero.mp (ends.1 state))
  conv => lhs; unfold settle; rw [fewIs]
  unfold drain
  split
  · rfl
  · rfl
  · next next turned =>
    have fewer := ends.2 state next turned
    exact machine.drain_enough ends few next (by omega)

/-- What holds where a machine waits or stops holds of a machine that has come to rest, if
each turn it goes on after keeps it. -/
theorem settle_induction (machine : Machine State Byte Stopped) (ends : machine.Ends)
    (holds : State → Except Stopped State → Prop)
    (stops : ∀ state stopped, machine.turn state = .error stopped → holds state (.error stopped))
    (waits : ∀ state next, machine.turn state = .ok (.wait next) → holds state (.ok next))
    (goesOn : ∀ state next result, machine.turn state = .ok (.again next) → holds next result →
      holds state result) (state : State) : holds state (machine.settle state) := by
  induction bound : machine.enough state using Nat.strongRecOn generalizing state with
  | ind bound inductionHypothesis =>
    rw [machine.settle_eq ends]
    split
    · next stopped turned => exact stops state stopped turned
    · next next turned => exact waits state next turned
    · next next turned =>
      have fewer := ends.2 state next turned
      exact goesOn state next _ turned (inductionHypothesis _ (by omega) next rfl)

/-- What holds of a result, stopped or not. -/
def Kept (kept : State → Prop) (ok : Stopped → Prop) : Except Stopped State → Prop
  | .error stopped => ok stopped
  | .ok state => kept state

/-- What holds after a turn. -/
def KeptTurn (kept : State → Prop) (ok : Stopped → Prop) : Except Stopped (Turn State) → Prop
  | .error stopped => ok stopped
  | .ok (.again state) => kept state
  | .ok (.wait state) => kept state

/-- What every turn and every new input keeps is kept by a whole input. -/
theorem kept_consume (machine : Machine State Byte Stopped) (kept : State → Prop)
    (ok : Stopped → Prop) (turns : ∀ state, kept state → KeptTurn kept ok (machine.turn state))
    (pushes : ∀ state piece, kept state → kept (machine.push state piece)) (state : State)
    (pieces : List (List Byte)) (before : kept state) :
    Kept kept ok (machine.consume state pieces) := by
  have drains : ∀ turns state, kept state → Kept kept ok (machine.drain turns state) := by
    intro count
    induction count with
    | zero => exact fun state before => before
    | succ count inductionHypothesis =>
      intro state before
      have turned := turns state before
      unfold drain
      split
      · next moved =>
        rw [moved] at turned
        exact turned
      · next moved =>
        rw [moved] at turned
        exact turned
      · next next moved =>
        rw [moved] at turned
        exact inductionHypothesis next turned
  induction pieces generalizing state with
  | nil => exact before
  | cons piece pieces inductionHypothesis =>
    have fed : Kept kept ok (machine.feed state piece) := by
      unfold feed
      split
      · exact before
      · exact drains _ _ (pushes state piece before)
    unfold consume
    split
    · next moved =>
      rw [moved] at fed
      exact fed
    · next next moved =>
      rw [moved] at fed
      exact inductionHypothesis next fed

/-! ### Cutting the input -/

/-- A machine whose turns do not look behind what they use: as long as it is not done, more
input behind changes neither a turn it goes on after nor one that stops it, and where it
waits it has lost nothing. -/
structure Lawful (machine : Machine State Byte Stopped) : Prop where
  ends : machine.Ends
  push_nil : ∀ state, machine.push state [] = state
  push_push : ∀ state first second,
    machine.push (machine.push state first) second = machine.push state (first ++ second)
  push_done : ∀ state more, machine.done (machine.push state more) = machine.done state
  stays : ∀ state next, machine.done state = false → machine.turn state = .ok (.again next) →
    machine.done next = false
  stops : ∀ state stopped more, machine.done state = false →
    machine.turn state = .error stopped →
    machine.turn (machine.push state more) = .error stopped
  goesOn : ∀ state next more, machine.done state = false →
    machine.turn state = .ok (.again next) →
    machine.turn (machine.push state more) = .ok (.again (machine.push next more))
  waits : ∀ state next more, machine.done state = false →
    machine.turn state = .ok (.wait next) → machine.done next = false →
    machine.turn (machine.push state more) = machine.turn (machine.push next more)
  finishes : ∀ state next more, machine.done state = false →
    machine.turn state = .ok (.wait next) → machine.done next = true →
    machine.turn (machine.push state more) = .ok (.wait next)

section
variable {machine : Machine State Byte Stopped} (lawful : machine.Lawful)
include lawful

/-- Coming to rest on more input is coming to rest on some of it and then on the rest. -/
theorem settle_push (state : State) (more : List Byte) (open' : machine.done state = false) :
    machine.settle (machine.push state more) =
      match machine.settle state with
      | .error stopped => .error stopped
      | .ok next => machine.feed next more := by
  refine machine.settle_induction lawful.ends
    (fun state result => machine.done state = false → machine.settle (machine.push state more) =
      match result with
      | .error stopped => .error stopped
      | .ok next => machine.feed next more) ?_ ?_ ?_ state open'
  · intro state stopped turned open'
    rw [machine.settle_eq lawful.ends, lawful.stops state stopped more open' turned]
  · intro state next turned open'
    show _ = machine.feed next more
    rw [machine.settle_eq lawful.ends]
    unfold feed
    cases finished : machine.done next with
    | true =>
      rw [lawful.finishes state next more open' turned finished]
      rfl
    | false =>
      rw [lawful.waits state next more open' turned finished, ← machine.settle_eq lawful.ends]
      rfl
  · intro state next result turned inductionHypothesis open'
    rw [machine.settle_eq lawful.ends, lawful.goesOn state next more open' turned]
    exact inductionHypothesis (lawful.stays state next open' turned)

/-- A state that has come to rest: it looks at no more input, or waits for it. -/
def Resting (machine : Machine State Byte Stopped) (state : State) : Prop :=
  machine.done state = true ∨ machine.turn state = .ok (.wait state)

omit lawful in
theorem settle_of_resting (ends : machine.Ends) {state : State}
    (waiting : machine.turn state = .ok (.wait state)) : machine.settle state = .ok state := by
  rw [machine.settle_eq ends, waiting]

theorem resting_of_settle {state next : State} (open' : machine.done state = false)
    (settled : machine.settle state = .ok next) : machine.Resting next := by
  refine machine.settle_induction lawful.ends
    (fun state result => machine.done state = false → ∀ next, result = .ok next →
      machine.Resting next) ?_ ?_ ?_ state open' next settled
  · exact fun _ _ _ _ _ impossible => nomatch impossible
  · intro state next turned open' settled equal
    obtain rfl : next = settled := Except.ok.inj equal
    cases finished : machine.done next with
    | true => exact Or.inl finished
    | false =>
      have same := lawful.waits state next [] open' turned finished
      rw [lawful.push_nil, lawful.push_nil, turned] at same
      exact Or.inr same.symm
  · exact fun state next _ turned inductionHypothesis open' =>
      inductionHypothesis (lawful.stays state next open' turned)

theorem resting_of_feed {state next : State} {piece : List Byte} (resting : machine.Resting state)
    (fed : machine.feed state piece = .ok next) : machine.Resting next := by
  unfold feed at fed
  split at fed
  · cases fed
    exact resting
  · next unfinished =>
    refine resting_of_settle lawful ?_ fed
    rw [lawful.push_done]
    exact Bool.eq_false_iff.mpr unfinished

/-- Two pieces are taken as the one they make. -/
theorem feed_append (state : State) (first second : List Byte) :
    machine.feed state (first ++ second) =
      match machine.feed state first with
      | .error stopped => .error stopped
      | .ok next => machine.feed next second := by
  unfold feed
  by_cases finished : machine.done state = true
  · rw [if_pos finished, if_pos finished]
    show _ = if machine.done state = true then _ else _
    rw [if_pos finished]
  · have open' : machine.done (machine.push state first) = false := by
      rw [lawful.push_done]
      exact Bool.eq_false_iff.mpr finished
    rw [if_neg finished, if_neg finished, ← lawful.push_push, settle_push lawful _ _ open']
    rfl

/-- What a machine makes of an input does not depend on how it was cut. -/
theorem consume_eq_feed (pieces : List (List Byte)) {state : State}
    (resting : machine.Resting state) :
    machine.consume state pieces = machine.feed state pieces.flatten := by
  induction pieces generalizing state with
  | nil =>
    unfold consume feed
    obtain finished | waiting := resting
    · rw [if_pos finished]
    · split
      · rfl
      · rw [flatten_nil, lawful.push_nil, settle_of_resting lawful.ends waiting]
  | cons piece pieces inductionHypothesis =>
    rw [flatten_cons, feed_append lawful]
    unfold consume
    split
    · rfl
    · next next fed => exact inductionHypothesis (resting_of_feed lawful resting fed)

end

/-! ### Something on the side -/

/-- How a result reads once what is on the side is left out. -/
def plainly (plain : State → State) : Except Stopped State → Except Stopped State
  | .error stopped => .error stopped
  | .ok state => .ok (plain state)

def plainTurn (plain : State → State) : Except Stopped (Turn State) → Except Stopped (Turn State)
  | .error stopped => .error stopped
  | .ok (.again state) => .ok (.again (plain state))
  | .ok (.wait state) => .ok (.wait (plain state))

/-- The record of a result. -/
def recordOf {Event : Type} (record : State → List Event) (ended : Stopped → List Event) :
    Except Stopped State → List Event
  | .error stopped => ended stopped
  | .ok state => record state

def recordOfTurn {Event : Type} (record : State → List Event) (ended : Stopped → List Event) :
    Except Stopped (Turn State) → List Event
  | .error stopped => ended stopped
  | .ok (.again state) => record state
  | .ok (.wait state) => record state

/-- A machine that follows a plain one, unless what it has on the side stops it: then it has
made a beginning of what the plain one does in that turn. -/
structure Follows {Event : Type} (machine simple : Machine State Byte Stopped)
    (plain : State → State) (excused : Stopped → Prop) (record : State → List Event)
    (ended : Stopped → List Event) : Prop where
  ends : machine.Ends
  simpleEnds : simple.Ends
  push : ∀ state more, simple.push (plain state) more = plain (machine.push state more)
  done : ∀ state, simple.done (plain state) = machine.done state
  turns : ∀ state, simple.turn (plain state) = plainTurn plain (machine.turn state) ∨
    ∃ stopped, machine.turn state = .error stopped ∧ excused stopped ∧
      ended stopped <+: recordOfTurn record ended (simple.turn (plain state))
  grows : ∀ state, record state <+: recordOfTurn record ended (simple.turn state)
  keeps : ∀ state more, record (simple.push state more) = record state

section
variable {Event : Type} {machine simple : Machine State Byte Stopped} {plain : State → State}
  {excused : Stopped → Prop} {record : State → List Event} {ended : Stopped → List Event}
  (follows : Follows machine simple plain excused record ended)
include follows

/-- The plain machine's result, or a stop that is excused and had begun the same. -/
def Matches (plain : State → State) (excused : Stopped → Prop) (record : State → List Event)
    (ended : Stopped → List Event) (result expected : Except Stopped State) : Prop :=
  expected = plainly plain result ∨
    ∃ stopped, result = .error stopped ∧ excused stopped ∧
      ended stopped <+: recordOf record ended expected

theorem grows_settle (state : State) :
    record state <+: recordOf record ended (simple.settle state) := by
  refine simple.settle_induction follows.simpleEnds
    (fun state result => record state <+: recordOf record ended result) ?_ ?_ ?_ state
  · intro state stopped turned
    have grown := follows.grows state
    rw [turned] at grown
    exact grown
  · intro state next turned
    have grown := follows.grows state
    rw [turned] at grown
    exact grown
  · intro state next result turned inductionHypothesis
    have grown := follows.grows state
    rw [turned] at grown
    exact grown.trans inductionHypothesis

theorem grows_feed (state : State) (piece : List Byte) :
    record state <+: recordOf record ended (simple.feed state piece) := by
  unfold feed
  split
  · exact prefix_rfl
  · rw [← follows.keeps state piece]
    exact grows_settle follows _

theorem grows_consume (state : State) (pieces : List (List Byte)) :
    record state <+: recordOf record ended (simple.consume state pieces) := by
  induction pieces generalizing state with
  | nil => exact prefix_rfl
  | cons piece pieces inductionHypothesis =>
    have grown := grows_feed follows state piece
    unfold consume
    split
    · next stopped fed =>
      rw [fed] at grown
      exact grown
    · next next fed =>
      rw [fed] at grown
      exact grown.trans (inductionHypothesis next)

theorem settle_follows (state : State) :
    Matches plain excused record ended (machine.settle state) (simple.settle (plain state)) := by
  refine machine.settle_induction follows.ends
    (fun state result => Matches plain excused record ended result
      (simple.settle (plain state))) ?_ ?_ ?_ state
  · intro state stopped turned
    obtain same | ⟨stopped', turned', excuse, begun⟩ := follows.turns state
    · rw [turned] at same
      rw [simple.settle_eq follows.simpleEnds, same]
      exact Or.inl rfl
    · have equal : stopped = stopped' := Except.error.inj (turned.symm.trans turned')
      subst equal
      refine Or.inr ⟨stopped, rfl, excuse, begun.trans ?_⟩
      rw [simple.settle_eq follows.simpleEnds]
      split
      · next moved => rw [moved]; exact prefix_rfl
      · next moved => rw [moved]; exact prefix_rfl
      · next next moved =>
        rw [moved]
        exact grows_settle follows next
  · intro state next turned
    obtain same | ⟨stopped, stops, _⟩ := follows.turns state
    · rw [turned] at same
      rw [simple.settle_eq follows.simpleEnds, same]
      exact Or.inl rfl
    · rw [turned] at stops
      exact nomatch stops
  · intro state next result turned inductionHypothesis
    obtain same | ⟨stopped, stops, _⟩ := follows.turns state
    · rw [turned] at same
      rw [simple.settle_eq follows.simpleEnds, same]
      exact inductionHypothesis
    · rw [turned] at stops
      exact nomatch stops

theorem feed_follows (state : State) (piece : List Byte) :
    Matches plain excused record ended (machine.feed state piece)
      (simple.feed (plain state) piece) := by
  unfold feed
  rw [follows.done state]
  split
  · exact Or.inl rfl
  · rw [follows.push state piece]
    exact settle_follows follows _

/-- A machine with something on the side makes of its input what the plain one makes of it, or
stops for an excused reason with a beginning of that. -/
theorem consume_follows (state : State) (pieces : List (List Byte)) :
    Matches plain excused record ended (machine.consume state pieces)
      (simple.consume (plain state) pieces) := by
  induction pieces generalizing state with
  | nil => exact Or.inl rfl
  | cons piece pieces inductionHypothesis =>
    obtain same | ⟨stopped, stops, excuse, begun⟩ := feed_follows follows state piece
    · unfold consume
      rw [same]
      cases machine.feed state piece with
      | error stopped => exact Or.inl rfl
      | ok next => exact inductionHypothesis next
    · refine Or.inr ⟨stopped, ?_, excuse, begun.trans ?_⟩
      · unfold consume
        rw [stops]
      · conv => rhs; rhs; unfold consume
        cases fed : simple.feed (plain state) piece with
        | error stopped => exact prefix_rfl
        | ok next => exact grows_consume follows next pieces

end

end Machine

end Feeding
