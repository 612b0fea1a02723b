/-
This file is about what an install that fails leaves on the node.

The installer destroys what it made when a step fails, by the name the node gave
the workload; before that name is known it destroys nothing. A provision that the
node refuses once the directory is made leaves the directory, and one that is
carried out and whose answer is lost leaves a workload as well. These are the only
ways: in every other failure the node ends without either, and around a world that
was there before the directory stays.
-/

import Geeboard.Panel.BuildOps

namespace Geeboard.Panel

open Effects Effects.Code Option Function

variable {Locals Result : Type} {panel : Workspace} {faults : interface.Site → Outcome}

/-- The node has neither a workload nor a directory of the server. -/
def Node.bare (node : Node) : Prop := node.workload = none ∧ node.directory = none

/-- A new server's install that throws leaves nothing on the node. -/
def LeavesNothing (panel : Workspace) (faults : interface.Site → Outcome)
    (context : InstallContext) (locals : Locals) (world : World) : Prop :=
  context.existingData = false →
    Ends panel faults (installServer context) locals world fun result _ later =>
      ∀ failure, result = .error failure → (later.nodes context.at_).bare

/-- An install around a world that was there never asks for the directory to be removed, and ends
with the directory in place. -/
def LosesNothing (panel : Workspace) (faults : interface.Site → Outcome)
    (context : InstallContext) (locals : Locals) (world : World) : Prop :=
  context.existingData = true →
    Makes (fun call => ∀ at_ ref, call ≠ .node at_ (.destroy ref true))
      (installServer context : PanelCode Locals InstallResult) ∧
    ((world.nodes context.at_).directory.isSome →
      Ends panel faults (installServer context) locals world fun _ _ later =>
        (later.nodes context.at_).directory.isSome)

/-- The node does not answer that a workload was made, and has made something of it: the
directory before it refused the workload, or both before its answer was lost. -/
def Outcome.Leaves (outcome : Outcome) : Prop :=
  outcome.fault = .doneThenFailed ∨ (outcome.fault = .failed ∧ outcome.begun ≠ .nothing)

/-- The install gets as far as making the workload, and the node leaves something of it without
answering that it made it. -/
def ProvisionLeaves (faults : interface.Site → Outcome) (context : InstallContext) : Prop :=
  context.plan.game.install ≠ .download ∧ (faults ["fetch"]).fault = .done ∧
    (faults ["provision"]).Leaves

/-! ### What the calls of an install do to the node -/

section Calls

variable {findGame : GameId → Option GameDefinition} {at_ : NodeId} {context : InstallContext}

/-- What a node has of the server that its game cannot change by itself. -/
def Node.Undrifted (holds : Node → Prop) : Prop :=
  ∀ node drift, holds node → holds (node.drifted drift)

theorem nodes_later (outcome : Outcome) (call : Call) (world : World) :
    (world.later outcome call).nodes at_ = world.nodes at_ ∨
      (world.later outcome call).nodes at_ = (world.nodes at_).drifted outcome.drift ∨
        (∃ plan, call = .node at_ (.provision plan)) ∧ (world.later outcome call).nodes at_ =
          ((world.nodes at_).drifted outcome.drift).begun outcome.begun := by
  cases call with
  | node other call =>
    by_cases here : at_ = other
    · subst here
      cases call with
      | provision plan => exact .inr (.inr ⟨⟨plan, rfl⟩, update_self ..⟩)
      | _ => exact .inr (.inl (update_self ..))
    · refine .inl ?_
      cases call with
      | _ => exact update_of_ne here _ _
  | _ => exact .inl rfl

/-- What goes before a call keeps what a game cannot change by itself, unless it begins a
workload. -/
theorem later_keeps {holds : Node → Prop} (undrifted : Node.Undrifted holds) (outcome : Outcome)
    (call : Call) (world : World)
    (begun : ∀ plan, call = .node at_ (.provision plan) → ∀ node, holds node →
      holds (node.begun outcome.begun))
    (before : holds (world.nodes at_)) : holds ((world.later outcome call).nodes at_) := by
  obtain same | drifted | ⟨⟨plan, is⟩, made⟩ := @nodes_later at_ outcome call world
  · rw [same]
    exact before
  · rw [drifted]
    exact undrifted _ _ before
  · rw [made]
    exact begun plan is _ (undrifted _ _ before)

theorem Node.begun_nothing {node : Node} {begun : Begun} (nothing : begun = .nothing) :
    node.begun begun = node := by
  rw [nothing]
  rfl

theorem Node.directory_begun {node : Node} {begun : Begun} (something : begun ≠ .nothing) :
    (node.begun begun).directory.isSome := by
  cases begun with
  | nothing => exact absurd rfl something
  | _ => rfl

theorem undrifted_bare : Node.Undrifted Node.bare := by
  intro node drift bare
  refine ⟨?_, bare.2⟩
  rw [Node.drifted, bare.1]
  rfl

/-- The node has a workload of that number. -/
def Node.runs (node : Node) (id : RuntimeId) : Prop :=
  node.workload.map Workload.id = some id

theorem undrifted_runs (id : RuntimeId) : Node.Undrifted fun node => node.runs id := by
  intro node drift runs
  unfold Node.runs Node.drifted at *
  rw [← runs, Option.map_map]
  congr 1
  funext workload
  unfold Function.comp Workload.drifted
  dsimp only
  split
  · split
    · rfl
    · rfl
  · rfl

theorem undrifted_directory : Node.Undrifted fun node => node.directory.isSome :=
  fun _ _ there => there

/-- A call that does not fail by itself answers as its outcome tells it to. -/
theorem answer_of_ok {outcome : Outcome} {call : Call} {world after : World} {reply : call.Reply}
    (canFail : call.canFail = true)
    (performed : perform findGame outcome call (world.later outcome call) = .ok (reply, after)) :
    answer findGame outcome call world =
      match outcome.fault with
      | .done => (.ok reply, after)
      | .failed => (.error outcome.failure, world.later outcome call)
      | .doneThenFailed => (.error outcome.failure, after) := by
  unfold answer
  simp only [canFail, performed, if_true]
  cases outcome.fault with
  | _ => rfl

/-- The calls that make a workload or take it away. -/
def Call.makesOrRemoves : Call → Bool
  | .node _ (.provision _) => true
  | .node _ (.destroy _ _) => true
  | _ => false

/-- Its workload, if any, is the same, and it has lost no directory. -/
structure Node.SamePlace (before after : Node) : Prop where
  workload : after.workload.map Workload.id = before.workload.map Workload.id
  directory : before.directory.isSome → after.directory.isSome

theorem Node.SamePlace.refl (node : Node) : node.SamePlace node := ⟨rfl, id⟩

theorem samePlace_setNode {world : World} {other : NodeId} {node : Node}
    (same : (world.nodes at_).SamePlace node) :
    (world.nodes other).SamePlace ((world.setNode at_ node).nodes other) := by
  rw [World.nodes_setNode]
  by_cases here : other = at_
  · rw [here, update_self]
    exact same
  · rw [update_of_ne here]
    exact .refl _

theorem named_ok {node : Node} {ref : RuntimeRef} {workload : Workload}
    (named : node.named ref = .ok workload) : node.workload = some workload := by
  unfold Node.named at named
  split at named
  · cases named
  · split at named
    · rename_i found
      split at named
      · cases named
        exact found
      · cases named
    · cases named

theorem Workload.id_stopped (workload : Workload) : workload.stopped.id = workload.id := by
  unfold Workload.stopped
  split
  · rfl
  · rfl

theorem samePlace_start {node : Node} {workload : Workload}
    (there : node.workload = some workload) (outcome : Outcome) :
    node.SamePlace (node.start workload outcome) :=
  ⟨by rw [there]; rfl, fun directory => by rw [Node.start, isSome_map]; exact directory⟩

theorem samePlace_performNode {outcome : Outcome} {call : NodeCall} {world after : World}
    {reply : call.Reply} (settles : (Call.node at_ call).makesOrRemoves = false)
    (performed : performNode findGame at_ outcome call world = .ok (reply, after))
    (other : NodeId) : (world.nodes other).SamePlace (after.nodes other) := by
  cases call with
  | provision plan | destroy ref withData => cases settles
  | status ref | logs ref =>
    obtain ⟨workload, -, rest⟩ := ok_of_bind performed
    cases rest
    exact .refl _
  | fetchSource image =>
    cases performed
    exact .refl _
  | stop ref graceSeconds =>
    obtain ⟨workload, named, rest⟩ := ok_of_bind performed
    cases rest
    refine samePlace_setNode ⟨?_, id⟩
    rw [named_ok named, map_some, map_some, Workload.id_stopped]
  | start ref =>
    obtain ⟨workload, named, rest⟩ := ok_of_bind performed
    split at rest
    · cases rest
      exact .refl _
    · cases rest
      exact samePlace_setNode (samePlace_start (named_ok named) outcome)
  | sendCommand ref line =>
    obtain ⟨workload, named, rest⟩ := ok_of_bind performed
    split at rest
    · cases rest
      refine samePlace_setNode ⟨?_, id⟩
      rw [named_ok named]
      rfl
    · cases rest
      exact .refl _
  | readFile ref path | uploadArchive ref artifact key =>
    simp only [performNode] at performed
    split at performed
    · cases performed
      exact .refl _
    · cases performed
  | writeFile ref path content =>
    simp only [performNode] at performed
    split at performed
    · cases performed
      exact samePlace_setNode ⟨rfl, fun _ => rfl⟩
    · cases performed
  | removeArchive ref artifact =>
    simp only [performNode] at performed
    split at performed
    · cases performed
      exact samePlace_setNode ⟨rfl, id⟩
    · cases performed
  | createArchive ref name =>
    simp only [performNode] at performed
    split at performed
    · cases performed
      exact samePlace_setNode ⟨rfl, id⟩
    · cases performed
    · cases performed
  | restoreArchive ref artifact checksum =>
    simp only [performNode] at performed
    split at performed
    · split at performed
      · cases performed
        exact samePlace_setNode ⟨rfl, fun _ => rfl⟩
      · cases performed
    · cases performed

/-- What a call that makes and removes no workload keeps, whatever its answer. -/
theorem answer_keeps {holds : Node → Prop} (undrifted : Node.Undrifted holds)
    (same : ∀ before after : Node, before.SamePlace after → holds before → holds after)
    (outcome : Outcome) (call : Call) (world : World) (settles : call.makesOrRemoves = false)
    (before : holds (world.nodes at_)) :
    holds ((answer findGame outcome call world).2.nodes at_) := by
  refine @kept_by_answer findGame (fun world => holds (world.nodes at_))
    (fun call => call.makesOrRemoves = false) ?_ ?_ outcome call world settles before
  · exact fun outcome call world settles before => later_keeps undrifted outcome call world
      (fun plan is => by rw [is] at settles; cases settles) before
  · intro outcome call world reply after settles before performed
    cases call with
    | node other call =>
      exact same _ _ (samePlace_performNode settles performed at_) before
    | _ =>
      rw [((perform_frame performed).nodes rfl).1]
      exact before

theorem settles_makesOrRemoves (context : InstallContext) :
    Settles context fun call => call.makesOrRemoves = false := by
  refine ⟨fun call progress => ?_, fun _ _ => rfl, fun _ _ _ => rfl, fun _ _ => rfl⟩
  cases progress with
  | _ => rfl

end Calls

/-! ### The pieces of an install -/

variable {locals : Locals} {world : World} {context : InstallContext}

/-- A report says something, or not, and leaves the nodes alone. -/
theorem ends_report (label stage message : String) :
    Ends panel faults (report label stage message) locals world fun result _ later =>
      result = .ok () ∧ later.nodes = world.nodes := by
  have quiet : ∀ outcome call later, ProgressCall call → later.nodes = world.nodes →
      (answer panel.findGame outcome call later).2.nodes = world.nodes := by
    intro outcome call later progress before
    have notOnNode : call.onNode = false := by
      cases progress with
      | _ => rfl
    rw [((answer_frame outcome call later).nodes notOnNode).1]
    exact before
  refine ends_and ?_ (ends_of_uses quiet (makes_report label stage message) rfl)
  refine ends_step (ends_bind (ends_swallowed (ends_call ?_)))
  exact ends_swallowed (ends_call rfl)

/-- A call that does not fail by itself ends as its outcome tells it to. -/
theorem ends_ask {label : String} {at_ : NodeId} {call : NodeCall} {reply : call.Reply}
    {after : World} {post : Except Failure call.Reply → Locals → World → Prop}
    (performed : performNode panel.findGame at_ (faults [label]) call
      (world.later (faults [label]) (.node at_ call)) = .ok (reply, after))
    (done : (faults [label]).fault = .done → post (.ok reply) locals after)
    (failed : (faults [label]).fault = .failed →
      post (.error (faults [label]).failure) locals
        (world.later (faults [label]) (.node at_ call)))
    (lost : (faults [label]).fault = .doneThenFailed →
      post (.error (faults [label]).failure) locals after) :
    Ends panel faults (ask label at_ call) locals world post := by
  have answered := @answer_of_ok panel.findGame (faults [label]) (.node at_ call) world after reply
    rfl performed
  refine ends_call ?_
  change post (answer panel.findGame (faults [label]) (.node at_ call) world).1 locals
    (answer panel.findGame (faults [label]) (.node at_ call) world).2
  rw [answered]
  cases fault : (faults [label]).fault with
  | done => exact done fault
  | failed => exact failed fault
  | doneThenFailed => exact lost fault

theorem ends_prepare :
    Ends panel faults (installStep "prepare" do
        report "preparing" "prepare" s!"Preparing {context.plan.game.name}"
        prepareInstall context.plan.game) locals world
      fun result _ later => later.nodes = world.nodes ∧
        (result = .ok () ↔ context.plan.game.install ≠ .download) := by
  refine ends_installStep (ends_bind (ends_mono (ends_report _ _ _) ?_))
  rintro _ after later ⟨rfl, same⟩
  unfold prepareInstall
  dsimp only
  split
  · rename_i image
    exact ends_pure ⟨same, iff_of_true rfl (by rw [image]; decide)⟩
  · rename_i steamcmd
    exact ends_pure ⟨same, iff_of_true rfl (by rw [steamcmd]; decide)⟩
  · rename_i download
    exact ends_throw ⟨same, iff_of_false (fun same => by cases same) (absurd download)⟩

theorem ends_fetch {holds : Node → Prop} (undrifted : Node.Undrifted holds)
    (before : holds (world.nodes context.at_)) :
    Ends panel faults
      (installStep "download" (ask "fetch" context.at_ (.fetchSource context.plan.version.image)))
      locals world fun result _ later => holds (later.nodes context.at_) ∧
        (result = .ok () ↔ (faults ["fetch"]).fault = .done) := by
  have waited := @later_keeps context.at_ holds undrifted (faults ["fetch"])
    (.node context.at_ (.fetchSource context.plan.version.image)) world (fun _ is => by cases is)
    before
  refine ends_installStep (ends_ask rfl ?_ ?_ ?_)
  · exact fun done => ⟨waited, iff_of_true rfl done⟩
  · exact fun failed => ⟨waited, by simp [failed]⟩
  · exact fun lost => ⟨waited, by simp [lost]⟩

/-- What making the workload comes to, on a node that has nothing of the server. -/
theorem ends_making (before : (world.nodes context.at_).bare) :
    Ends panel faults (installStep "provision" do
        report "provisioning" "provision" "Creating the server"
        ask "provision" context.at_ (.provision context.plan)) locals world
      fun result _ later =>
        (∀ status, result = .ok status → (later.nodes context.at_).runs status.id) ∧
        (∀ failure, result = .error failure → ¬ (faults ["provision"]).Leaves →
          (later.nodes context.at_).bare) ∧
        ((faults ["provision"]).Leaves →
          (∀ status, result ≠ .ok status) ∧ ¬ (later.nodes context.at_).bare) := by
  refine ends_installStep (ends_bind (ends_mono (ends_report _ _ _) ?_))
  rintro _ after later ⟨rfl, same⟩
  refine ends_ask rfl ?_ ?_ ?_
  · intro done
    refine ⟨fun status made => ?_, fun failure made => (by cases made), fun leaves => ?_⟩
    · cases made
      rw [World.nodes_setNode, update_self]
      rfl
    · obtain lost | ⟨failed, -⟩ := leaves
      · rw [done] at lost
        cases lost
      · rw [done] at failed
        cases failed
  · intro failed
    refine ⟨fun status made => (by cases made), fun failure _ clean => ?_,
      fun leaves => ⟨fun status made => (by cases made), fun bare => ?_⟩⟩
    · have nothing : (faults ["provision"]).begun = .nothing :=
        Decidable.byContradiction fun something => clean (.inr ⟨failed, something⟩)
      exact later_keeps undrifted_bare _ _ _
        (fun _ _ node bare => (Node.begun_nothing nothing).symm ▸ bare) (same ▸ before)
    · obtain lost | ⟨-, something⟩ := leaves
      · rw [failed] at lost
        cases lost
      · have there := @Node.directory_begun
          (((later.nodes context.at_)).drifted (faults ["provision"]).drift) _ something
        have none_ := bare.2
        rw [World.later, World.nodes_setNode, update_self] at none_
        rw [none_] at there
        cases there
  · intro lost
    refine ⟨fun status made => (by cases made), fun failure _ clean => absurd (.inl lost) clean,
      fun _ => ⟨fun status made => (by cases made), fun bare => ?_⟩⟩
    have none_ := bare.1
    rw [World.nodes_setNode, update_self] at none_
    cases none_

/-- The workload that was made stays while the files are written and the game is started. -/
theorem ends_settling (ref : RuntimeRef) (provisioned : RuntimeStatus) {id : RuntimeId}
    (runs : (world.nodes context.at_).runs id) :
    Ends panel faults (settleInstall context ref provisioned) locals world fun _ _ later =>
      (later.nodes context.at_).runs id := by
  have kept : ∀ outcome call later, call.makesOrRemoves = false →
      (later.nodes context.at_).runs id →
      ((answer panel.findGame outcome call later).2.nodes context.at_).runs id :=
    answer_keeps (undrifted_runs id) fun before after same runs => same.workload.trans runs
  exact ends_of_uses kept (makes_settleInstall (settles_makesOrRemoves context) ref provisioned)
    runs

/-- The cleanup takes away the workload it names, with the directory when it is the install's
own. -/
theorem ends_undo {id : RuntimeId} (fresh_ : context.existingData = false)
    (answered : (faults ["undo"]).fault = .done) (runs : (world.nodes context.at_).runs id) :
    Ends panel faults (swallowed (ask "undo" context.at_
        (.destroy ⟨context.plan.serverId, some id⟩ (!context.existingData)))) locals world
      fun _ _ later => (later.nodes context.at_).bare := by
  have waited := @later_keeps context.at_ _ (undrifted_runs id) (faults ["undo"])
    (.node context.at_ (.destroy ⟨context.plan.serverId, some id⟩ (!false))) world
    (fun _ is => by cases is) runs
  rw [fresh_]
  refine ends_swallowed (ends_ask rfl (fun _ => ?_) (fun failed => ?_) (fun lost => ?_))
  · obtain ⟨workload, there, named⟩ := map_eq_some_iff.mp waited
    rw [if_pos, World.nodes_setNode, update_self]
    · exact ⟨rfl, rfl⟩
    · dsimp only
      rw [there, any_some, named, beq_self_eq_true]
  · rw [answered] at failed
    cases failed
  · rw [answered] at lost
    cases lost

/-! ### The two halves -/

/-- An install ends without a workload and a directory, or with something that nobody knows of, as
the provision leaves it. -/
theorem ends_newInstall (fresh_ : context.existingData = false)
    (bare : (world.nodes context.at_).bare) (answered : (faults ["undo"]).fault = .done) :
    Ends panel faults (installServer context) locals world fun result _ later =>
      (¬ ProvisionLeaves faults context → ∀ failure, result = .error failure →
        (later.nodes context.at_).bare) ∧
      (ProvisionLeaves faults context →
        (∀ installed, result ≠ .ok installed) ∧ ¬ (later.nodes context.at_).bare) := by
  refine ends_bind (ends_mono ends_prepare ?_)
  rintro (failure | ⟨⟩) after later ⟨same, prepared⟩
  · refine ⟨fun _ _ _ => same ▸ bare, fun lost => ?_⟩
    cases prepared.mpr lost.1
  refine ends_bind (ends_mono (ends_fetch undrifted_bare (same ▸ bare)) ?_)
  rintro (failure | ⟨⟩) after later ⟨still, fetched⟩
  · refine ⟨fun _ _ _ => still, fun lost => ?_⟩
    cases fetched.mpr lost.2.1
  refine ends_bind (ends_mono (ends_making still) ?_)
  rintro (failure | provisioned) after later ⟨made, unmade, lost⟩
  · refine ⟨fun notLost _ _ => unmade failure rfl fun gone => notLost ?_, fun gone => ?_⟩
    · exact ⟨prepared.mp rfl, fetched.mp rfl, gone⟩
    · exact ⟨fun installed same => (by cases same), (lost gone.2.2).2⟩
  · have notLost : ¬ ProvisionLeaves faults context := fun gone =>
      (lost gone.2.2).1 provisioned rfl
    refine ends_bind (ends_attempt (ends_mono
      (ends_settling _ provisioned (made provisioned rfl)) ?_))
    rintro (failure | installed) after later runs
    · refine ends_bind (ends_mono (ends_undo fresh_ answered runs) ?_)
      rintro (failure | ⟨⟩) after later bare
      · exact ⟨fun _ _ _ => bare, fun gone => absurd gone notLost⟩
      · exact ends_throw ⟨fun _ _ _ => bare, fun gone => absurd gone notLost⟩
    · exact ends_pure ⟨fun _ _ same => (by cases same), fun gone => absurd gone notLost⟩

theorem makes_keptData (existing : context.existingData = true) :
    Makes (fun call => ∀ at_ ref, call ≠ .node at_ (.destroy ref true))
      (installServer context : PanelCode Locals InstallResult) := by
  refine makes_mono (makes_installServer context) fun call install at_ ref same => ?_
  cases install with
  | progress progress =>
    cases progress with
    | _ => cases same
  | undo id =>
    rw [existing] at same
    cases same
  | _ => cases same

theorem directory_setNode {world : World} {at_ other : NodeId} {node : Node}
    (before : (world.nodes at_).directory.isSome)
    (there : (world.nodes other).directory.isSome → node.directory.isSome) :
    ((world.setNode other node).nodes at_).directory.isSome := by
  rw [World.nodes_setNode]
  by_cases here : at_ = other
  · rw [here] at before ⊢
    rw [update_self]
    exact there before
  · rw [update_of_ne here]
    exact before

theorem directory_destroyed {world : World} {at_ other : NodeId} (named : Bool)
    (before : (world.nodes at_).directory.isSome) :
    ((if named then world.setNode other ((world.nodes other).destroyed false)
      else world).nodes at_).directory.isSome := by
  cases named with
  | true => exact directory_setNode before id
  | false => exact before

/-- A directory stays whatever is called, unless its removal is asked for. -/
theorem answer_keepsDirectory {findGame : GameId → Option GameDefinition} {at_ : NodeId}
    (outcome : Outcome) (call : Call) (world : World)
    (kept : ∀ at_ ref, call ≠ .node at_ (.destroy ref true))
    (before : (world.nodes at_).directory.isSome) :
    ((answer findGame outcome call world).2.nodes at_).directory.isSome := by
  refine @kept_by_answer findGame (fun world => (world.nodes at_).directory.isSome)
    (fun call => ∀ at_ ref, call ≠ .node at_ (.destroy ref true)) ?_ ?_ outcome call world kept
    before
  · intro outcome call world _ before
    refine later_keeps undrifted_directory outcome call world (fun _ _ node there => ?_) before
    cases outcome.begun with
    | nothing => exact there
    | _ => rfl
  · intro outcome call world reply after kept before performed
    cases call with
    | node other call =>
      by_cases settles : (Call.node other call).makesOrRemoves = false
      · exact (samePlace_performNode settles performed at_).directory before
      cases call with
      | provision plan =>
        cases performed
        exact directory_setNode before fun _ => rfl
      | destroy ref withData =>
        cases withData with
        | true => exact absurd rfl (kept other ref)
        | false =>
          have same : _ = after := congrArg Prod.snd (Except.ok.inj performed)
          rw [← same]
          exact directory_destroyed _ before
      | _ => exact absurd rfl settles
    | _ =>
      rw [((perform_frame performed).nodes rfl).1]
      exact before

theorem losesNothing (panel : Workspace) (faults : interface.Site → Outcome)
    (context : InstallContext) (locals : Locals) (world : World) :
    LosesNothing panel faults context locals world := by
  intro existing
  refine ⟨makes_keptData existing, fun there => ?_⟩
  have kept : ∀ outcome call (world : World),
      (∀ at_ ref, call ≠ Call.node at_ (.destroy ref true)) →
      (world.nodes context.at_).directory.isSome →
      ((answer panel.findGame outcome call world).2.nodes context.at_).directory.isSome :=
    answer_keepsDirectory
  exact ends_of_uses kept (makes_keptData existing) there

/-- A failed install of a new server leaves nothing on the node, and one around a world that was
there loses nothing, just when no provision of a new server leaves something without answering
that it was made. -/
theorem install_leaves_nothing_iff (panel : Workspace) (faults : interface.Site → Outcome)
    (context : InstallContext) (locals : Locals) (world : World)
    (bare : context.existingData = false → (world.nodes context.at_).bare)
    (answered : (faults ["undo"]).fault = .done) :
    (LeavesNothing panel faults context locals world ∧
        LosesNothing panel faults context locals world) ↔
      (context.existingData = false → ¬ ProvisionLeaves faults context) := by
  rw [and_iff_left (losesNothing panel faults context locals world)]
  refine forall_congr' fun fresh_ => ?_
  have ends := @ends_newInstall Locals panel faults locals world context fresh_ (bare fresh_)
    answered
  refine ⟨fun leaves lost => ?_, fun notLost => ends_mono ends fun _ _ _ post => post.1 notLost⟩
  obtain ⟨failed, left⟩ := ends.2 lost
  cases ended : (Code.run (machine panel.findGame) 0 faults (installServer context) locals
      world).1.1 with
  | ok installed => exact failed installed ended
  | error failure => exact left (leaves failure ended)

/-- A new server on the sample's empty node, with one file to write. -/
def Sample.newServer : InstallContext where
  plan := ⟨"t", "t", Sample.game, Sample.newer, 25566, 4, 2⟩
  at_ := "m"
  files := [("server.properties", id)]
  existingData := false
  start := true

theorem Sample.bare : (Sample.world.nodes Sample.newServer.at_).bare := ⟨rfl, rfl⟩

/-- The law is met by an install whose start fails. -/
theorem install_leaves_nothing_iff_failedStart :
    (LeavesNothing Sample.workspace (Sample.failing ["start"] .failed) Sample.newServer ()
        Sample.world ∧
      LosesNothing Sample.workspace (Sample.failing ["start"] .failed) Sample.newServer ()
        Sample.world) ↔
      (Sample.newServer.existingData = false →
        ¬ ProvisionLeaves (Sample.failing ["start"] .failed) Sample.newServer) :=
  install_leaves_nothing_iff Sample.workspace (Sample.failing ["start"] .failed) Sample.newServer ()
    Sample.world (fun _ => Sample.bare) rfl

/-- The node makes the directory, and then refuses the workload. -/
def Sample.refusing : interface.Site → Outcome := fun site =>
  if site = ["provision"] then { fault := .failed, begun := .directory } else {}

/-- A provision that is refused once the directory is made leaves the directory. -/
theorem refused_provision_leaves_directory :
    (Sample.world.nodes Sample.newServer.at_).bare ∧
      ¬ LeavesNothing Sample.workspace Sample.refusing Sample.newServer () Sample.world := by
  refine ⟨Sample.bare, fun leaves => ?_⟩
  have failed : (ran Sample.workspace Sample.refusing
      (installServer Sample.newServer) () Sample.world).1.1.isOk = false := by decide +kernel
  have left : ((ran Sample.workspace Sample.refusing
      (installServer Sample.newServer) () Sample.world).2.nodes "m").directory.isSome := by
    decide +kernel
  cases ended : (ran Sample.workspace Sample.refusing
      (installServer Sample.newServer) () Sample.world).1.1 with
  | ok installed =>
    rw [ended] at failed
    cases failed
  | error failure =>
    have none_ : ((ran Sample.workspace Sample.refusing
        (installServer Sample.newServer) () Sample.world).2.nodes "m").directory = none :=
      (leaves rfl failure ended).2
    rw [none_] at left
    cases left

end Geeboard.Panel
