/-
This file says once what a call of the panel can do, in the forms the results
need.

Every call is carried out or leaves no more than what goes before it, the clock,
what a game did by itself and a workload that was begun; a failure is told apart
only by the answer. A write of the
server's row is spelled out, since nearly every result is about one. And a rule
turns "this is kept whenever such a call is carried out" into "this is kept by a
run that makes only such calls".
-/

import Geeboard.Effects.Reach
import Geeboard.Panel.Operations

namespace Geeboard.Panel

open Effects

variable {findGame : GameId → Option GameDefinition}

/-! ### One call -/

@[simp] theorem server_later (world : World) (outcome : Outcome) (call : Call) :
    (world.later outcome call).server = world.server := by
  cases call with
  | node at_ call =>
    cases call with
    | _ => rfl
  | _ => rfl

@[simp] theorem backups_later (world : World) (outcome : Outcome) (call : Call) :
    (world.later outcome call).backups = world.backups := by
  cases call with
  | node at_ call =>
    cases call with
    | _ => rfl
  | _ => rfl

@[simp] theorem catalog_later (world : World) (outcome : Outcome) (call : Call) :
    (world.later outcome call).catalog = world.catalog := by
  cases call with
  | node at_ call =>
    cases call with
    | _ => rfl
  | _ => rfl

@[simp] theorem nodeRows_later (world : World) (outcome : Outcome) (call : Call) :
    (world.later outcome call).nodeRows = world.nodeRows := by
  cases call with
  | node at_ call =>
    cases call with
    | _ => rfl
  | _ => rfl

@[simp] theorem madeFrom_later (world : World) (outcome : Outcome) (call : Call) :
    (world.later outcome call).madeFrom = world.madeFrom := by
  cases call with
  | node at_ call =>
    cases call with
    | _ => rfl
  | _ => rfl

@[simp] theorem nextRuntime_later (world : World) (outcome : Outcome) (call : Call) :
    (world.later outcome call).nextRuntime = world.nextRuntime := by
  cases call with
  | node at_ call =>
    cases call with
    | _ => rfl
  | _ => rfl

@[simp] theorem clock_later (world : World) (outcome : Outcome) (call : Call) :
    (world.later outcome call).clock = world.clock + outcome.elapsed := by
  cases call with
  | node at_ call =>
    cases call with
    | _ => rfl
  | _ => rfl

/-- A call that is not carried out leaves what went before it, and else it is carried out. -/
theorem answer_cases (outcome : Outcome) (call : Call) (world : World) :
    (∃ failure, answer findGame outcome call world =
        (.error failure, world.later outcome call)) ∨
      ∃ reply after, perform findGame outcome call (world.later outcome call) =
          .ok (reply, after) ∧
        ((answer findGame outcome call world = (.ok reply, after) ∧
            (call.canFail = true → outcome.fault = .done)) ∨
          ∃ failure, answer findGame outcome call world = (.error failure, after) ∧
            outcome.fault = .doneThenFailed) := by
  unfold answer
  rcases performed : perform findGame outcome call (world.later outcome call) with
    failure | ⟨reply, after⟩
  · refine .inl ?_
    rcases (if call.canFail then outcome.fault else Fault.done) with _ | _ | _
    · exact ⟨failure, by simp [performed]⟩
    · exact ⟨outcome.failure, by simp⟩
    · exact ⟨failure, by simp [performed]⟩
  · cases fails : call.canFail with
    | false => exact .inr ⟨reply, after, rfl, .inl ⟨by simp [performed], by simp⟩⟩
    | true =>
      cases fault : outcome.fault with
      | done => exact .inr ⟨reply, after, rfl, .inl ⟨by simp [performed], fun _ => rfl⟩⟩
      | failed => exact .inl ⟨outcome.failure, by simp⟩
      | doneThenFailed =>
        exact .inr ⟨reply, after, rfl, .inr ⟨outcome.failure, by simp [performed], rfl⟩⟩

theorem ok_of_bind {First Second : Type} {first : Except Failure First}
    {rest : First → Except Failure Second} {result : Second}
    (ended : (first >>= rest) = .ok result) :
    ∃ middle, first = .ok middle ∧ rest middle = .ok result := by
  cases first with
  | error failure => cases ended
  | ok middle => exact ⟨middle, rfl, ended⟩

/-- What the world can be after a call to a node: the same, with something else on that node,
with something else in the bucket, or with a workload of the next number. -/
inductive NodeShape (at_ : NodeId) (world : World) : NodeCall → World → Prop
  | same {call : NodeCall} : NodeShape at_ world call world
  | node {call : NodeCall} (node : Node) : NodeShape at_ world call (world.setNode at_ node)
  | bucket {call : NodeCall} (bucket : String → Option Archive) :
      NodeShape at_ world call { world with bucket := bucket }
  | provision (plan : Plan) (node : Node) : NodeShape at_ world (.provision plan)
      { world.setNode at_ node with
        nextRuntime := world.nextRuntime + 1
        madeFrom := Function.update world.madeFrom world.nextRuntime (some plan.version) }

theorem performNode_shape {at_ : NodeId} {outcome : Outcome} {call : NodeCall}
    {world after : World} {reply : call.Reply}
    (performed : performNode findGame at_ outcome call world = .ok (reply, after)) :
    NodeShape at_ world call after := by
  cases call with
  | status ref | logs ref =>
    obtain ⟨workload, -, rest⟩ := ok_of_bind performed
    cases rest
    exact .same
  | stop ref =>
    obtain ⟨workload, -, rest⟩ := ok_of_bind performed
    cases rest
    exact .node _
  | start ref =>
    obtain ⟨workload, -, rest⟩ := ok_of_bind performed
    split at rest
    · cases rest
      exact .same
    · cases rest
      exact .node _
  | sendCommand ref =>
    obtain ⟨workload, -, rest⟩ := ok_of_bind performed
    split at rest
    · cases rest
      exact .node _
    · cases rest
      exact .same
  | fetchSource image =>
    cases performed
    exact .same
  | provision plan =>
    cases performed
    exact .provision plan _
  | destroy ref withData =>
    simp only [performNode] at performed
    split at performed
    · cases performed
      split
      · exact .node _
      · exact .same
    · cases performed
      split
      · exact .node _
      · exact .same
  | readFile ref path =>
    simp only [performNode] at performed
    split at performed
    · cases performed
      exact .same
    · cases performed
  | uploadArchive ref artifact key =>
    simp only [performNode] at performed
    split at performed
    · cases performed
      exact .bucket _
    · cases performed
  | writeFile ref path content | removeArchive ref artifact =>
    simp only [performNode] at performed
    split at performed
    · cases performed
      exact .node _
    · cases performed
  | createArchive ref name =>
    simp only [performNode] at performed
    split at performed
    · cases performed
      exact .node _
    · cases performed
    · cases performed
  | restoreArchive ref artifact checksum =>
    simp only [performNode] at performed
    split at performed
    · split at performed
      · cases performed
        exact .node _
      · cases performed
    · cases performed

/-- The tables nothing here writes, and what only some calls write. -/
structure Beside (call : Call) (world after : World) : Prop where
  nodeRows : after.nodeRows = world.nodeRows
  catalog : after.catalog = world.catalog
  offsite : after.offsite = world.offsite
  server : call.writesServer = false → after.server = world.server
  backups : call.writesBackups = false → after.backups = world.backups
  nodes : call.onNode = false → after.nodes = world.nodes ∧
    after.nextRuntime = world.nextRuntime ∧ after.madeFrom = world.madeFrom

theorem perform_frame {outcome : Outcome} {call : Call} {world after : World}
    {reply : call.Reply} (performed : perform findGame outcome call world = .ok (reply, after)) :
    Beside call world after := by
  cases call with
  | node at_ call =>
    cases performNode_shape performed with
    | _ => exact ⟨rfl, rfl, rfl, fun _ => rfl, fun _ => rfl, (fun no => nomatch no)⟩
  | claimServer operation owner since =>
    simp only [perform] at performed
    split at performed
    · split at performed
      · cases performed
        exact ⟨rfl, rfl, rfl, (fun no => nomatch no), fun _ => rfl, fun _ => ⟨rfl, rfl, rfl⟩⟩
      · cases performed
        exact ⟨rfl, rfl, rfl, (fun no => nomatch no), fun _ => rfl, fun _ => ⟨rfl, rfl, rfl⟩⟩
    · cases performed
      exact ⟨rfl, rfl, rfl, (fun no => nomatch no), fun _ => rfl, fun _ => ⟨rfl, rfl, rfl⟩⟩
  | updateServer change =>
    simp only [perform] at performed
    split at performed
    · split at performed
      · cases performed
      · cases performed
        exact ⟨rfl, rfl, rfl, (fun no => nomatch no), fun _ => rfl, fun _ => ⟨rfl, rfl, rfl⟩⟩
    · cases performed
  | updateBackup id change =>
    simp only [perform] at performed
    split at performed
    · cases performed
      exact ⟨rfl, rfl, rfl, fun _ => rfl, (fun no => nomatch no), fun _ => ⟨rfl, rfl, rfl⟩⟩
    · cases performed
  | createBackup data =>
    cases performed
    exact ⟨rfl, rfl, rfl, fun _ => rfl, (fun no => nomatch no), fun _ => ⟨rfl, rfl, rfl⟩⟩
  | _ =>
    cases performed
    exact ⟨rfl, rfl, rfl, fun _ => rfl, fun _ => rfl, fun _ => ⟨rfl, rfl, rfl⟩⟩
/-- What a call leaves alone, however it turns out. -/
theorem answer_frame (outcome : Outcome) (call : Call) (world : World) :
    Beside call world (answer findGame outcome call world).2 := by
  have waited : Beside call world (world.later outcome call) := by
    refine ⟨nodeRows_later _ _ _, catalog_later _ _ _, ?_, fun _ => server_later _ _ _,
      fun _ => backups_later _ _ _, ?_⟩
    · cases call with
      | node at_ call =>
        cases call with
        | _ => rfl
      | _ => rfl
    · intro notOnNode
      cases call with
      | node at_ call => cases notOnNode
      | _ => exact ⟨rfl, rfl, rfl⟩
  have carriedOut : ∀ reply after,
      perform findGame outcome call (world.later outcome call) = .ok (reply, after) →
        Beside call world after := by
    intro reply after performed
    have frame := perform_frame performed
    refine ⟨frame.nodeRows.trans waited.nodeRows, frame.catalog.trans waited.catalog,
      frame.offsite.trans waited.offsite,
      fun quiet => (frame.server quiet).trans (waited.server quiet),
      fun quiet => (frame.backups quiet).trans (waited.backups quiet), fun quiet => ?_⟩
    obtain ⟨nodes, numbers, made⟩ := frame.nodes quiet
    obtain ⟨nodesBefore, numbersBefore, madeBefore⟩ := waited.nodes quiet
    exact ⟨nodes.trans nodesBefore, numbers.trans numbersBefore, made.trans madeBefore⟩
  obtain ⟨failure, answered⟩ | ⟨reply, after, performed, ⟨answered, -⟩ | ⟨failure, answered, -⟩⟩ :=
    answer_cases outcome call world
  · rw [answered]
    exact waited
  · rw [answered]
    exact carriedOut _ _ performed
  · rw [answered]
    exact carriedOut _ _ performed

/-- Workloads keep what they were made from, and their numbers are not given out again. -/
structure Numbers (world after : World) : Prop where
  next : world.nextRuntime ≤ after.nextRuntime
  made : ∀ id, id < world.nextRuntime → after.madeFrom id = world.madeFrom id

theorem Numbers.refl (world : World) : Numbers world world := ⟨Nat.le_refl _, fun _ _ => rfl⟩

theorem Numbers.trans {first second third : World} (one : Numbers first second)
    (other : Numbers second third) : Numbers first third :=
  ⟨Nat.le_trans one.next other.next, fun id below =>
    (other.made id (Nat.lt_of_lt_of_le below one.next)).trans (one.made id below)⟩

theorem perform_numbers {outcome : Outcome} {call : Call} {world after : World}
    {reply : call.Reply} (performed : perform findGame outcome call world = .ok (reply, after)) :
    Numbers world after := by
  cases onNode : call.onNode with
  | false =>
    obtain ⟨-, numbers, made⟩ := (perform_frame performed).nodes onNode
    exact ⟨Nat.le_of_eq numbers.symm, fun id _ => congrFun made id⟩
  | true =>
    cases call with
    | node at_ call =>
      cases performNode_shape performed with
      | same => exact Numbers.refl world
      | node node => exact ⟨Nat.le_refl _, fun _ _ => rfl⟩
      | bucket bucket => exact ⟨Nat.le_refl _, fun _ _ => rfl⟩
      | provision plan node =>
        exact ⟨Nat.le_succ _, fun id below => Function.update_of_ne (Nat.ne_of_lt below) _ _⟩
    | _ => cases onNode

theorem answer_numbers (outcome : Outcome) (call : Call) (world : World) :
    Numbers world (answer findGame outcome call world).2 := by
  have waited : Numbers world (world.later outcome call) :=
    ⟨Nat.le_of_eq (nextRuntime_later _ _ _).symm, fun id _ => congrFun (madeFrom_later _ _ _) id⟩
  obtain ⟨failure, answered⟩ | ⟨reply, after, performed, ⟨answered, -⟩ | ⟨failure, answered, -⟩⟩ :=
    answer_cases outcome call world
  · rw [answered]
    exact waited
  · rw [answered]
    exact waited.trans (perform_numbers performed)
  · rw [answered]
    exact waited.trans (perform_numbers performed)

/-- What holds whether or not a call is carried out is kept by its answer. -/
theorem kept_by_answer {holds : World → Prop} {allowed : Call → Prop}
    (later : ∀ outcome call world, allowed call → holds world → holds (world.later outcome call))
    (carriedOut : ∀ outcome call world reply after, allowed call → holds world →
      perform findGame outcome call world = .ok (reply, after) → holds after)
    (outcome : Outcome) (call : Call) (world : World) (permitted : allowed call)
    (before : holds world) : holds (answer findGame outcome call world).2 := by
  have waited := later outcome call world permitted before
  obtain ⟨failure, answered⟩ | ⟨reply, after, performed, ⟨answered, -⟩ | ⟨failure, answered, -⟩⟩ :=
    answer_cases outcome call world
  · rw [answered]
    exact waited
  · rw [answered]
    exact carriedOut _ _ _ _ _ permitted waited performed
  · rw [answered]
    exact carriedOut _ _ _ _ _ permitted waited performed

/-- A write of the server's row that leaves it on its node and port. -/
theorem answer_updateServer {world : World} {row : ServerRow} (there : world.server = some row)
    (outcome : Outcome) {change : ServerChange} (sameNode : change.nodeId = none)
    (samePort : change.port = none) :
    answer findGame outcome (.updateServer change) world =
      (if outcome.fault = .done then .ok () else .error outcome.failure,
        if outcome.takesEffect then
          { world.later outcome (.updateServer change) with
            server := some (row.apply change (world.clock + outcome.elapsed)) }
        else world.later outcome (.updateServer change)) := by
  have performed : perform findGame outcome (.updateServer change)
      (world.later outcome (.updateServer change)) =
        .ok ((), { world.later outcome (.updateServer change) with
          server := some (row.apply change (world.clock + outcome.elapsed)) }) := by
    simp only [perform, server_later, there, clock_later]
    rw [if_neg]
    · rfl
    · simp [ServerRow.apply, sameNode, samePort]
  unfold answer
  simp only [performed]
  cases fault : outcome.fault with
  | done => simp [Call.canFail, Outcome.takesEffect, Fault.takesEffect, fault]
  | failed => simp [Call.canFail, Outcome.takesEffect, Fault.takesEffect, fault]
  | doneThenFailed => simp [Call.canFail, Outcome.takesEffect, Fault.takesEffect, fault]

/-! ### Running the panel's code -/

section Ran

variable {Locals Result Next : Type}

/-- The run of a piece of the panel's code. -/
abbrev ran (panel : Workspace) (faults : interface.Site → Outcome)
    (code : PanelCode Locals Result) (locals : Locals) (world : World) :
    (Except Failure Result × Locals) × World :=
  code.run (machine panel.findGame) 0 faults locals world

/-- The run awaits the step at the site. -/
abbrev Reaches (panel : Workspace) (faults : interface.Site → Outcome) (site : interface.Site)
    (code : PanelCode Locals Result) (locals : Locals) (world : World) : Prop :=
  code.Reaches (machine panel.findGame) 0 faults site locals world

/-- The run ends as described. -/
abbrev Ends (panel : Workspace) (faults : interface.Site → Outcome)
    (code : PanelCode Locals Result) (locals : Locals) (world : World)
    (post : Except Failure Result → Locals → World → Prop) : Prop :=
  Code.Ends (machine panel.findGame) 0 faults code locals world post

/-- The run goes as described: the sites it reaches, its result, its variables, the world. -/
abbrev Goes (panel : Workspace) (faults : interface.Site → Outcome)
    (code : PanelCode Locals Result) (locals : Locals) (world : World)
    (post : (interface.Site → Prop) → Except Failure Result → Locals → World → Prop) : Prop :=
  Code.Goes (machine panel.findGame) 0 faults code locals world post

/-- Code that makes allowed calls only. -/
abbrev Makes (allowed : Call → Prop) (code : PanelCode Locals Result) : Prop :=
  @Code.Uses interface Locals Result allowed code

/-- Code whose sites begin with one of the labels. -/
abbrev StartsAt (labels : List String) (code : PanelCode Locals Result) : Prop :=
  @Code.Begins interface Locals Result labels code

variable {allowed wider : Call → Prop}

theorem makes_mono {code : PanelCode Locals Result} (makes : Makes allowed code)
    (weaker : ∀ call, allowed call → wider call) : Makes wider code :=
  fun locals => Program.uses_mono weaker (makes locals)

theorem makes_swallowed {code : PanelCode Locals Result} (makes : Makes allowed code) :
    Makes allowed (swallowed code) :=
  Code.uses_bind (Code.uses_attempt makes) fun _ => Code.uses_pure ()

/-- A call whose failure is swallowed ends with nothing, as far as its caller can tell. -/
theorem ends_swallowed {panel : Workspace} {faults : interface.Site → Outcome}
    {code : PanelCode Locals Result} {locals : Locals} {world : World}
    {post : Except Failure Unit → Locals → World → Prop}
    (ends : Ends panel faults code locals world fun _ after later => post (.ok ()) after later) :
    Ends panel faults (swallowed code) locals world post :=
  Code.ends_bind (Code.ends_attempt (Code.ends_mono ends fun _ _ _ holds =>
    Code.ends_pure holds))

end Ran

end Geeboard.Panel
