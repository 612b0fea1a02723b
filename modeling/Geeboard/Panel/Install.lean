/-
This file makes a workload: the installer's sequence, and the rebuild of a
server's workload around a version.

The installer provisions the workload stopped, merges the game's settings into
its files and starts it last. What it made is destroyed when a step fails, with
the directory only when the directory is its own. A rebuild fetches the build,
destroys the workload and keeps the data, says so in the row, installs anew and
writes the new workload down.
-/

import Geeboard.Panel.Shutdown

namespace Geeboard.Panel

open Effects Effects.Code

variable {Locals : Type}

/-! ### The installer -/

/-- What an install ends with. -/
structure InstallResult where
  ref : RuntimeRef
  state : RuntimeState
  startedAt : Option Time
  filesWritten : Nat
  deriving DecidableEq, Repr

/-- What an install works from. -/
structure InstallContext where
  plan : Plan
  at_ : NodeId
  files : List (String × (String → String))
  existingData : Bool
  start : Bool

/-- What a file holds before it is merged with: nothing when it is not there yet. -/
def readExisting (at_ : NodeId) (ref : RuntimeRef) (path : String) : PanelCode Locals String := do
  match ← (ask "read" at_ (.readFile ref path)).attempt with
  | .ok file =>
    if file.truncated then
      throw
        { code := .serverInstallationFailed
          message := s!"{path} is too large for Geeboard to edit safely."
          step := some "configure" }
    else pure file.content
  | .error failure => if failure.code = .notFound then pure "" else throw failure

/-- Merges each of the game's files with what is there. -/
def writeConfigFiles (at_ : NodeId) (ref : RuntimeRef) :
    List (String × (String → String)) → PanelCode Locals Nat
  | [] => pure 0
  | (path, patch) :: files => do
    report "file" "configure" s!"Writing {path}"
    let existing ← readExisting at_ ref path
    ask "write" at_ (.writeFile ref path (patch existing))
    let written ← step "next" (writeConfigFiles at_ ref files)
    pure (written + 1)

/-- Every install failure names its step: the one it names itself, or the one that was reached. -/
def asInstallFailure (failure : Failure) (at_ : String) : Failure :=
  if failure.code = .serverInstallationFailed ∧ failure.step.isSome then failure
  else { failure with code := .serverInstallationFailed, step := failure.step <|> some at_ }

/-- The work before a workload exists. -/
def prepareInstall (game : GameDefinition) : PanelCode Locals Unit :=
  match game.install with
  | .image => pure ()
  | .steamcmd => pure ()
  | .download => throw
    { code := .serverInstallationFailed
      message := s!"Geeboard cannot yet install {game.name} from a direct download."
      step := some "prepare" }

/-- A piece of an install, whose failure names its step. -/
def installStep {Result : Type} (stage : String) (code : PanelCode Locals Result) :
    PanelCode Locals Result := do
  match ← code.attempt with
  | .ok result => pure result
  | .error failure => throw (asInstallFailure failure stage)

/-- The part of an install after the workload was made. -/
def settleInstall (context : InstallContext) (ref : RuntimeRef) (provisioned : RuntimeStatus) :
    PanelCode Locals InstallResult := do
  let filesWritten ← installStep "configure"
    (step "configure" (writeConfigFiles context.at_ ref context.files))
  if context.start then
    let started ← installStep "start" do
      report "starting" "start" "Starting the server"
      ask "start" context.at_ (.start ref)
    pure ⟨ref, started.state, started.startedAt, filesWritten⟩
  else pure ⟨ref, provisioned.state, none, filesWritten⟩

/-- Runs an install to completion, or throws having destroyed what it made. -/
def installServer (context : InstallContext) : PanelCode Locals InstallResult := do
  installStep "prepare" do
    report "preparing" "prepare" s!"Preparing {context.plan.game.name}"
    prepareInstall context.plan.game
  installStep "download" (ask "fetch" context.at_ (.fetchSource context.plan.version.image))
  let provisioned ← installStep "provision" do
    report "provisioning" "provision" "Creating the server"
    ask "provision" context.at_ (.provision context.plan)
  let ref : RuntimeRef := ⟨context.plan.serverId, some provisioned.id⟩
  match ← (settleInstall context ref provisioned).attempt with
  | .ok result => pure result
  | .error failure => do
    swallowed (ask "undo" context.at_ (.destroy ref (!context.existingData)))
    throw failure

/-! ### Rebuilding a workload -/

/-- What a workload is made from. -/
def workloadPlan (game : GameDefinition) (version : GameVersion) (server : ServerRow)
    (port : Port) : Plan :=
  ⟨server.id, server.slug, game, version, port, server.memoryLimit, server.cpuLimit⟩

/-- What the row keeps of it. -/
def workloadSpec (plan : Plan) : WorkloadSpec :=
  ⟨plan.version, plan.port, plan.memoryGb, plan.cpuLimit⟩

/-- A game from a manifest runs only where the operator of the machine allows it. -/
def allowedThere (server : ServerRow) (game : GameDefinition) : PanelCode Locals Unit :=
  if game.capabilities.contains "community-games" then do
    let host ← await "host" (.findNodeById server.nodeId)
    if host.any fun node => node.capabilities.contains "community-games" then pure ()
    else
      let where_ := (host.map NodeRow.name).getD "That node"
      throw
        { code := .validationFailed
          message := s!"{where_} does not allow community games any more, so {game.name} was " ++
            "not rebuilt there and keeps running as it is. Its operator allows them again with " ++
            "the installer's --community-games, or the server can be moved to a node that does." }
  else pure ()

/-- The build before the workload goes; its failure says that nothing was touched. -/
def fetchUntouched (at_ : NodeId) (image : String) : PanelCode Locals Unit := do
  match ← (ask "fetch" at_ (.fetchSource image)).attempt with
  | .ok _ => pure ()
  | .error failure => throw { failure with untouched := true }

/-- What a rebuild does once the old workload is gone: it installs the new one and writes it
down. -/
def installAnew (panel : Workspace) (server : ServerRow) (game : GameDefinition)
    (version : GameVersion) (at_ : NodeId) (ref : RuntimeRef) (start proveItStarts : Bool) :
    PanelCode Locals Unit := do
  let startOnce := start || proveItStarts
  let plan := workloadPlan game version server server.port
  let result ← step "install" (installServer
    { plan := plan, at_ := at_, files := panel.configFiles game version server.settings
      existingData := true, start := startOnce })
  let state := if start then mapRuntimeState result.state else .stopped
  whenever (startOnce && !start)
    (swallowed (ask "stop" at_ (.stop { ref with runtimeId := result.ref.runtimeId } 30)))
  let now ← await "now" .now
  await "record" (.updateServer
    { runtimeId := some result.ref.runtimeId, state := some state
      startedAt := some (if state = .running then some (result.startedAt.getD now) else none)
      builtSpec := some (some (workloadSpec plan)) })

/-- Rebuilds a server's workload around a version. -/
def rebuildWorkload (panel : Workspace) (server : ServerRow) (game : GameDefinition)
    (version : GameVersion) (at_ : NodeId) (ref : RuntimeRef) (start proveItStarts : Bool) :
    PanelCode Locals Unit := do
  allowedThere server game
  fetchUntouched at_ version.image
  ask "destroy" at_ (.destroy ref false)
  await "gone" (.updateServer { runtimeId := some none })
  installAnew panel server game version at_ ref start proveItStarts

end Geeboard.Panel
