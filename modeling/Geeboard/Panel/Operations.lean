/-
This file is how an operation takes a server, and what it says of how far it is.

A claim is one statement: it changes the state only if the server is settled and
says what the state was.
-/

import Geeboard.Panel.World

namespace Geeboard.Panel

open Effects Effects.Code

/-- What the panel's operations use and these modules do not decide: the catalog of games,
who may do what, how settings are rendered into files, and the wording of some sentences. -/
structure Workspace where
  findGame : GameId → Option GameDefinition
  may : User → String → Option UserId → Bool
  instanceName : String
  configFiles : GameDefinition → GameVersion → Settings → List (String × (String → String))
  agentRefusal : NodeRow → Option String
  withoutAgentAddress : String → String
  dateStamp : Time → String
  testPattern : String → String → Bool

/-- Code of one of the panel's operations, with the variables it assigns. -/
abbrev PanelCode (Locals Result : Type) : Type := Code interface Locals Result

variable {Locals Result : Type}

/-- One awaited call. -/
abbrev await (label : String) (call : Call) : PanelCode Locals call.Reply :=
  @Code.call interface Locals label call

/-- One awaited call to the agent of a node. -/
abbrev ask (label : String) (at_ : NodeId) (call : NodeCall) : PanelCode Locals call.Reply :=
  @Code.call interface Locals label (.node at_ call)

/-- A call whose failure changes nothing. -/
def swallowed (code : PanelCode Locals Result) : PanelCode Locals Unit := do
  let _ ← code.attempt
  pure ()

/-- An entry of the activity log. -/
def logEvent (label actor action target : String) (tone : Tone) : PanelCode Locals Unit :=
  await label (.createEvent ⟨actor, action, target, tone⟩)

section Claims

variable (panel : Workspace)

/-- What a claim comes to. -/
inductive Claim where
  | taken (stateBefore : ServerState) (since : Time)
  | busy (sentence : String)
  deriving DecidableEq, Repr

/-- Takes the server for an operation, or says why not. -/
def claimServer (operation : Operation) : PanelCode Locals Claim := step "claim" do
  let since ← await "since" .now
  match ← await "take" (.claimServer operation panel.instanceName since) with
  | some stateBefore => do
    await "beat" (.startBeat since)
    pure (.taken stateBefore since)
  | none => do
    match ← await "who" .findServer with
    | some current => do
      let now ← await "now" .now
      pure (.busy (busyReason current.row.asHeld now))
    | none => pure (.busy "That server no longer exists.")

end Claims

/-! ### Progress -/

/-- Where an install has got to, for whoever waits on it. Never a reason to fail. -/
def report (label stage message : String) : PanelCode Locals Unit := step label do
  swallowed (await "progress"
    (.updateServer { installStep := some (some stage), installMessage := some (some message) }))
  swallowed (logEvent "logged" "Installer" s!"server.install.{stage}" message .info)

/-- Puts a key on a server so that its progress can be asked about. -/
def beginProgress (key : Option String) (stage message : String) : PanelCode Locals Unit :=
  match key with
  | none => pure ()
  | some key => swallowed (await "begin"
      (.updateServer { installKey := some (some key), installStep := some (some stage)
                       installMessage := some (some message) }))

def endProgress : PanelCode Locals Unit :=
  swallowed (await "end"
    (.updateServer { installKey := some none, installStep := some none
                     installMessage := some none }))

end Geeboard.Panel
