/-
This file is about the calls of a run that fail, and the worlds they leave.

How code ends is described together with what failed on the way: a rule for each way
to put code together says how its end, and what failed in it, come from its parts.
-/

import Geeboard.Effects.Run

namespace Effects

namespace Program

variable {interface : Interface} {First Second : Type}

/-- The sites at which calls of the run failed, in order, each with the world after it. -/
def failures (machine : Machine interface) (actor : machine.Actor)
    (faults : interface.Site → machine.Outcome) :
    Program interface First → machine.World → List (interface.Site × machine.World)
  | stop _, _ => []
  | ask site call next, world =>
    let answered := machine.answer actor (faults site) call world
    (if answered.1.isOk then [] else [(site, answered.2)]) ++
      failures machine actor faults (next answered.1) answered.2

theorem failures_bind (machine : Machine interface) (actor : machine.Actor)
    (faults : interface.Site → machine.Outcome) (program : Program interface First)
    (rest : First → Program interface Second) (world : machine.World) :
    failures machine actor faults (program.bind rest) world =
      failures machine actor faults program world ++
        failures machine actor faults (rest (run machine actor faults program world).1)
          (run machine actor faults program world).2 := by
  induction program generalizing world with
  | stop result => rfl
  | ask site call next inductionHypothesis =>
    rw [bind_ask, failures, failures, inductionHypothesis, List.append_assoc]
    rfl

end Program

namespace Code

variable {interface : Interface} {Locals First Second : Type}

/-- How code ends and what fails in it: its result or failure, its variables, the world, and the
sites of the calls that failed with the worlds after them. -/
def Settles (machine : Machine interface) (actor : machine.Actor)
    (faults : interface.Site → machine.Outcome) (code : Code interface Locals First)
    (locals : Locals) (world : machine.World)
    (post : Except interface.Failure First → Locals → machine.World →
      List (interface.Site × machine.World) → Prop) : Prop :=
  post (code.run machine actor faults locals world).1.1
    (code.run machine actor faults locals world).1.2
    (code.run machine actor faults locals world).2
    (Program.failures machine actor faults (code locals) world)

section

variable {machine : Machine interface} {actor : machine.Actor}
  {faults : interface.Site → machine.Outcome} {locals : Locals} {world : machine.World}

variable
  {post : Except interface.Failure Second → Locals → machine.World → List (interface.Site ×
    machine.World) → Prop}
  {code : Code interface Locals First}

theorem settles_mono {post weaker : Except interface.Failure First → Locals → machine.World →
      List (interface.Site × machine.World) → Prop}
    (settles : Settles machine actor faults code locals world post)
    (implies : ∀ outcome after later failed, post outcome after later failed →
      weaker outcome after later failed) :
    Settles machine actor faults code locals world weaker := implies _ _ _ _ settles

theorem settles_pure {result : First}
    {post : Except interface.Failure First → Locals → machine.World →
      List (interface.Site × machine.World) → Prop}
    (holds : post (.ok result) locals world []) :
    Settles machine actor faults (pure result) locals world post := holds

theorem settles_throw {failure : interface.Failure}
    {post : Except interface.Failure First → Locals → machine.World →
      List (interface.Site × machine.World) → Prop}
    (holds : post (.error failure) locals world []) :
    Settles machine actor faults (throw failure) locals world post := holds

/-- A call: nothing fails in it, or it fails itself. -/
theorem settles_call {label : interface.Label} {request : interface.Call}
    {post : Except interface.Failure (interface.Reply request) → Locals → machine.World →
      List (interface.Site × machine.World) → Prop}
    (replied : ∀ reply later, machine.answer actor (faults [label]) request world =
      (.ok reply, later) → post (.ok reply) locals later [])
    (failed : ∀ failure later, machine.answer actor (faults [label]) request world =
      (.error failure, later) → post (.error failure) locals later [([label], later)]) :
    Settles machine actor faults (call label request) locals world post := by
  have settled : post (machine.answer actor (faults [label]) request world).1 locals
      (machine.answer actor (faults [label]) request world).2
      ((if (machine.answer actor (faults [label]) request world).1.isOk then []
        else [([label], (machine.answer actor (faults [label]) request world).2)]) ++ []) := by
    rcases answered : machine.answer actor (faults [label]) request world with
      ⟨failure | reply, later⟩
    · exact failed failure later answered
    · exact replied reply later answered
  exact settled

/-- A sequence: what fails in it fails in its first part, or in the rest once that has ended with
a result. -/
theorem settles_bind {rest : First → Code interface Locals Second}
    {middle : Except interface.Failure First → Locals → machine.World →
      List (interface.Site × machine.World) → Prop}
    (first : Settles machine actor faults code locals world middle)
    (next : ∀ result after later failed, middle (.ok result) after later failed →
      Settles machine actor faults (rest result) after later
        fun outcome last end_ more => post outcome last end_ (failed ++ more))
    (thrown : ∀ failure after later failed, middle (.error failure) after later failed →
      post (.error failure) after later failed) :
    Settles machine actor faults (code >>= rest) locals world post := by
  unfold Settles at first ⊢
  have parts := Program.failures_bind machine actor faults (code locals) (resume rest) world
  rw [run_bind, bind_apply, parts]
  unfold run at first ⊢
  rcases ended : (code locals).run machine actor faults world with
    ⟨⟨failure | result, after⟩, later⟩
  · rw [ended] at first
    rw [resume_error, Program.failures, List.append_nil]
    exact thrown failure after later _ first
  · rw [ended] at first
    exact next result after later _ first

/-- A call and what follows its reply. -/
theorem settles_call_bind {label : interface.Label} {request : interface.Call}
    {rest : interface.Reply request → Code interface Locals Second}
    (replied : ∀ reply later, machine.answer actor (faults [label]) request world =
      (.ok reply, later) → Settles machine actor faults (rest reply) locals later post)
    (failed : ∀ failure later, machine.answer actor (faults [label]) request world =
      (.error failure, later) → post (.error failure) locals later [([label], later)]) :
    Settles machine actor faults (call label request >>= rest) locals world post := by
  have called : Settles machine actor faults (call label request) locals world
      fun outcome after later failures =>
        (∀ reply, outcome = .ok reply → failures = [] ∧
          Settles machine actor faults (rest reply) after later post) ∧
        ∀ failure, outcome = .error failure → post (.error failure) after later failures := by
    refine settles_call (fun reply later answered => ⟨?_, nofun⟩)
      fun failure later answered => ⟨nofun, ?_⟩
    · rintro _ ⟨⟩
      exact ⟨rfl, replied reply later answered⟩
    · rintro _ ⟨⟩
      exact failed failure later answered
  refine settles_bind called (fun reply after later failures ended => ?_)
    fun failure after later failures ended => ended.2 failure rfl
  obtain ⟨rfl, settles⟩ := ended.1 reply rfl
  exact settles

/-- What was attempted is handed on. -/
theorem settles_attempt {post : Except interface.Failure (Except interface.Failure First) → Locals →
      machine.World → List (interface.Site × machine.World) → Prop}
    (settles : Settles machine actor faults code locals world
      fun outcome after later failed => post (.ok outcome) after later failed) :
    Settles machine actor faults code.attempt locals world post := by
  have parts : Program.failures machine actor faults (code.attempt locals) world =
      Program.failures machine actor faults (code locals) world := by
    rw [attempt_apply, Program.failures_bind, Program.failures, List.append_nil]
  unfold Settles at settles ⊢
  rw [run_attempt, parts]
  exact settles

/-- What follows an attempt goes on from how the attempt ended. -/
theorem settles_attempt_bind {rest : Except interface.Failure First → Code interface Locals Second}
    {middle : Except interface.Failure First → Locals → machine.World →
      List (interface.Site × machine.World) → Prop}
    (settles : Settles machine actor faults code locals world middle)
    (next : ∀ ended after later failed, middle ended after later failed →
      Settles machine actor faults (rest ended) after later
        fun outcome last end_ more => post outcome last end_ (failed ++ more)) :
    Settles machine actor faults (code.attempt >>= rest) locals world post := by
  have attempted : Settles machine actor faults code.attempt locals world
      fun outcome after later failed => ∃ ended, outcome = .ok ended ∧
        middle ended after later failed := settles_attempt ⟨_, rfl, settles⟩
  refine settles_bind attempted ?_ ?_
  · rintro ended after later failed ⟨_, ⟨⟩, held⟩
    exact next ended after later failed held
  · rintro failure after later failed ⟨_, ⟨⟩, -⟩

/-- A call that is attempted: what its failure leaves is what the rest goes on with. -/
theorem settles_attempt_call {label : interface.Label} {request : interface.Call}
    {rest : Except interface.Failure (interface.Reply request) → Code interface Locals Second}
    (replied : ∀ reply later, machine.answer actor (faults [label]) request world =
      (.ok reply, later) → Settles machine actor faults (rest (.ok reply)) locals later post)
    (failed : ∀ failure later, machine.answer actor (faults [label]) request world =
      (.error failure, later) → Settles machine actor faults (rest (.error failure)) locals later
        fun outcome last end_ more => post outcome last end_ (([label], later) :: more)) :
    Settles machine actor faults ((call label request).attempt >>= rest) locals world post := by
  have called : Settles machine actor faults (call label request) locals world
      fun ended after later failures => Settles machine actor faults (rest ended) after later
        fun outcome last end_ more => post outcome last end_ (failures ++ more) :=
    settles_call replied failed
  exact settles_attempt_bind called fun _ _ _ _ settles => settles

end

end Code

end Effects
