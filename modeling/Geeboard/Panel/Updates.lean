/-
This file is the update of a server to another version, its rebuild on the version
it is on, and its rollback.

An update fetches the build, takes a backup and locks it, claims the server, stops
the game, rebuilds the workload around the new version and starts it once, and
writes the version down by a statement of its own. When the rebuild fails, the
workload is rebuilt around the version before, on the same directory. A rollback
restores the backup first and rebuilds afterwards.
-/

import Geeboard.Panel.Backups

namespace Geeboard.Panel

open Effects Effects.Code

variable {Locals : Type} (panel : Workspace)

/-- The server an update is about, its game, its node's agent and how it is addressed there. -/
structure UpdateContext where
  found : FoundServer
  game : GameDefinition
  at_ : NodeId
  ref : RuntimeRef

/-- Reads the server for an update, or says why there is nothing to update. -/
def reachUpdate (user : User) (workloadOptional : Bool) : PanelCode Locals UpdateContext := do
  match ← await "server" .findServer with
  | none =>
    throw (notFound "That server no longer exists.")
  | some found =>
    if panel.may user "server.update" found.row.ownerId then
      match found.row.gameId.bind panel.findGame with
      | none =>
        throw
          { code := .gameNotFound
            message := "This server predates the game catalog, so Geeboard does not know what " ++
              "to update it to." }
      | some game =>
        match runtimeFor found.node, panel.agentRefusal found.node with
        | none, _ =>
          throw
            { code := .runtimeNotAttached
              message := s!"{found.node.name} has no agent attached, so there is nothing to " ++
                "update." }
        | some _, some behind =>
          throw { code := .nodeIncompatible, message := behind }
        | some at_, none =>
          if found.row.runtimeId.isNone && !workloadOptional then
            throw
              { code := .runtimeNotAttached
                message := s!"{found.row.name} has no workload on {found.node.name}. Rebuild it " ++
                  "first." }
          else pure ⟨found, game, at_, refFor found.row⟩
    else
      throw { code := .forbidden, message := "You cannot update this server." }

/-- The version a server is on, from its catalog link. -/
def currentVersion (game : GameDefinition) (found : FoundServer) : Option GameVersion :=
  versionOfServer game found.versionSlug found.row.version

/-- The build onto the node before anything about the server changes: the failure, if it
failed. -/
def downloadFirst (at_ : NodeId) (image : String) (progressKey : Option String) :
    PanelCode Locals (Option Failure) := do
  beginProgress progressKey "download" "Asking for the download"
  match ← (ask "fetch" at_ (.fetchSource image)).attempt with
  | .ok _ => pure none
  | .error failure => do
    endProgress
    pure (some failure)

/-! ### Updating -/

/-- The version an update goes to, or why there is no such update. -/
def updateTarget (context : UpdateContext) (targetVersionId : VersionId) :
    Except OpResult GameVersion :=
  let server := context.found.row
  let game := context.game
  match findVersion game targetVersionId with
  | none => .error (.refuse "Unknown version" s!"{game.name} has no such version.")
  | some target =>
    let source := currentVersion game context.found
    if !target.supported then
      .error (.refuse "Not installable" s!"Geeboard does not install {target.label}.")
    else if (match source with
        | some source => source.id == target.id
        | none => target.label == server.version) then
      .error (.refuse "Already there" s!"{server.name} is on {target.label}.")
    else if source.any fun source => lineOf target.line != lineOf source.line then
      let label := (source.map GameVersion.label).getD ""
      .error (.refuse "Not an update"
        (s!"{target.label} is a different line from {label}, and what this server has built does " ++
          s!"not carry across. Create a new server on {target.label} instead."))
    else if source.any fun source => isOlder target source then
      let label := (source.map GameVersion.label).getD ""
      .error (.refuse "Not an update"
        (s!"{target.label} is older than {label}, and a world does not open in an older version " ++
          "than made it. Rolling back is the way to undo an update."))
    else .ok target

/-- An update that has been let through: what it goes to, and what it found out. -/
structure UpdateJob where
  context : UpdateContext
  target : GameVersion
  running : Bool
  backupId : BackupId
  backupName : String

namespace UpdateJob

def server (job : UpdateJob) : ServerRow := job.context.found.row

def source (job : UpdateJob) : Option GameVersion :=
  currentVersion job.context.game job.context.found

end UpdateJob

/-- Stops the game and rebuilds its workload around the version the update goes to. -/
def replaceBuild (job : UpdateJob) : PanelCode Locals Unit := do
  let context := job.context
  whenever (job.running && job.server.runtimeId.isSome) do
    report "stopping" "prepare" s!"Stopping {job.server.name}"
    let _ ← step "stop" (stopGracefully context.at_ context.ref (some context.game.console) 30)
  step "rebuild" (rebuildWorkload panel job.server context.game job.target context.at_ context.ref
    job.running true)

/-- Reinstalls what was there, around the same files: whether that worked. -/
def undoBuild (job : UpdateJob) : PanelCode Locals Bool :=
  match job.source with
  | none => pure false
  | some source => (rebuildWorkload panel job.server job.context.game source job.context.at_
      job.context.ref job.running true).succeeded

/-- What becomes of an update whose rebuild failed. -/
def updateFailed (user : User) (job : UpdateJob) (failure : Failure) :
    PanelCode Locals OpResult := do
  endProgress
  let recovered ← step "undo" (undoBuild panel job)
  await "state" (.updateServer (if recovered then
      { state := some (if job.running then .starting else .stopped), lastError := some none }
    else
      { state := some .error, lastError := some (some s!"Update failed: {failure.message}") }))
  logEvent "logged" user.name "server.update.failed" job.server.name .danger
  pure (.refuse "Update failed" (if recovered then
      s!"{bare failure.message}. {job.server.name} was put back on {job.server.version}."
    else
      s!"{bare failure.message}. {job.server.name} could not be put back and needs looking at: " ++
        s!"its world is intact, and the backup taken just before the update ({job.backupName}) is " ++
        "locked. Roll back from the server's page, or use Rebuild on this version."))

/-- Writes the new version down, with where it came from. -/
def recordUpdate (user : User) (job : UpdateJob) : PanelCode Locals OpResult := do
  endProgress
  let catalogVersion ← await "catalog" (.findCatalogVersion job.context.game.id job.target.id)
  let now ← await "now" .now
  await "version" (.updateServer
    { version := some job.target.label
      gameVersionId := some ((catalogVersion.map CatalogVersion.id) <|> job.server.gameVersionId)
      installedBuildId := some (catalogVersion.bind CatalogVersion.buildId)
      rollback := some (job.source.map GameVersion.id, some job.server.version,
        some job.backupId, some now)
      lastError := some none, healthDetail := some none, restartAttempts := some 0 })
  logEvent "logged" user.name "server.updated" job.server.name .success
  pure (.done .success s!"{job.server.name} updated"
    (s!"{job.server.version} → {job.target.label}. A locked backup was taken first, so this can " ++
      "be undone."))

/-- The part of an update that holds the server. -/
def updateClaimed (user : User) (job : UpdateJob) : PanelCode Locals OpResult := do
  match ← (step "try" (replaceBuild panel job)).attempt with
  | .ok _ => step "record" (recordUpdate user job)
  | .error failure => step "catch" (updateFailed panel user job failure)

/-- The way back is taken and locked, and then the server. -/
def updateBackedUp (user : User) (context : UpdateContext) (target : GameVersion)
    (running : Bool) : PanelCode Locals OpResult := do
  report "backing" "prepare" "Backing up before the update"
  match ← step "backup" (createBackupOp panel user { trigger := some .preUpdate }) with
  | (.done _ _ _, some backupId) => do
    await "lock" (.updateBackup backupId { state := some .locked })
    let backup ← await "name" (.findBackup backupId)
    match ← claimServer panel .update with
    | .busy sentence => do
      swallowed (await "unlock" (.updateBackup backupId { state := some .complete }))
      endProgress
      pure (.refuse "Busy" sentence)
    | .taken _ _ =>
      let backupName := (backup.map fun backup => backup.row.name).getD "the one taken before it"
      updateClaimed panel user ⟨context, target, running, backupId, backupName⟩
  | (result, _) => do
    endProgress
    pure (.refuse "Update stopped"
      s!"The backup failed, so nothing was changed. {result.body}")

/-- Updates a server to another version. -/
def updateServerOp (user : User) (targetVersionId : VersionId) (progressKey : Option String) :
    PanelCode Locals OpResult := do
  match ← (step "reach" (reachUpdate panel user false)).attempt with
  | .error failure => pure (.refuse "Cannot update" failure.message)
  | .ok context =>
    match updateTarget context targetVersionId with
    | .error refusal => pure refusal
    | .ok target => do
      let running ← wasRunning context.at_ context.ref context.found.row
      match ← step "download" (downloadFirst context.at_ target.image progressKey) with
      | some failure => pure (.refuse "Update stopped"
          s!"{bare failure.message}. Nothing was changed.")
      | none => updateBackedUp panel user context target running

/-! ### Rebuilding on the same version -/

/-- A server whose workload is gone was meant to be running unless somebody stopped it. -/
def meantToRun (server : ServerRow) : Bool :=
  server.state != .stopped && server.state != .stopping && server.state != .suspended

/-- Whether the server should be running afterwards. -/
def upOrMeantToBe (context : UpdateContext) : PanelCode Locals Bool :=
  if context.found.row.runtimeId.isSome then
    wasRunning context.at_ context.ref context.found.row
  else pure (meantToRun context.found.row)

/-- Stops the game and rebuilds its workload on the same version. The variable says that the
stop is going on. -/
def rebuildClaimed (context : UpdateContext) (version : GameVersion) (start : Bool) :
    PanelCode Bool Unit := do
  whenever (context.found.row.runtimeId.isSome && start) do
    assign fun _ => true
    report "stopping" "prepare" s!"Stopping {context.found.row.name}"
    let _ ← step "stop" (stopGracefully context.at_ context.ref (some context.game.console) 30)
    assign fun _ => false
  step "rebuild" (rebuildWorkload panel context.found.row context.game version context.at_
    context.ref start false)

/-- What becomes of a rebuild that failed. -/
def rebuildFailed (user : User) (server : ServerRow) (stateBefore : ServerState)
    (failure : Failure) : PanelCode Bool OpResult := do
  endProgress
  let stopping ← read
  if stopping then
    await "back" (.updateServer { state := some stateBefore, lastError := some none })
    pure (.refuse "Rebuild stopped"
      s!"{server.name} could not be stopped: {bare failure.message}. Nothing was changed.")
  else
    await "error" (.updateServer
      { state := some .error, lastError := some (some s!"Rebuild failed: {failure.message}") })
    logEvent "logged" user.name "server.rebuild.failed" server.name .danger
    pure (.refuse "Rebuild failed"
      s!"{bare failure.message}. The server's files are untouched.")

/-- Writes down that the workload is a new one. -/
def recordRebuild (user : User) (server : ServerRow) (version : GameVersion) (start : Bool) :
    PanelCode Bool OpResult := do
  endProgress
  await "fresh" (.updateServer
    { lastError := some none, restartAttempts := some 0, readyAt := some none })
  logEvent "logged" user.name "server.rebuilt" server.name .success
  let after := if start then ", started" else ", left stopped as it was"
  pure (.done .success s!"{server.name} rebuilt"
    s!"A new workload on {version.label}, around the same files{after}.")

/-- Rebuilds a server on the version it is on. -/
def rebuildServerOp (user : User) (progressKey : Option String) :
    PanelCode Locals OpResult := do
  match ← (step "reach" (reachUpdate panel user true)).attempt with
  | .error failure => pure (.refuse "Cannot rebuild" failure.message)
  | .ok context =>
    let server := context.found.row
    match currentVersion context.game context.found with
    | none => pure (.refuse "Cannot rebuild"
        (s!"Geeboard cannot tell which {context.game.name} version {server.name} is on, so it " ++
          "will not guess which one to rebuild it from."))
    | some version =>
      if !version.supported then
        pure (.refuse "Not installable"
          (s!"Geeboard no longer installs {version.label}. Update {server.name} to a supported " ++
            "version instead."))
      else do
        let start ← upOrMeantToBe context
        match ← step "download" (downloadFirst context.at_ version.image progressKey) with
        | some failure => pure (.refuse "Rebuild stopped"
            s!"{bare failure.message}. Nothing was changed.")
        | none => do
          match ← claimServer panel .rebuild with
          | .busy sentence => do
            endProgress
            pure (.refuse "Busy" sentence)
          | .taken stateBefore _ => fresh false do
            match ← (step "try" (rebuildClaimed panel context version start)).attempt with
            | .ok _ => step "record" (recordRebuild user server version start)
            | .error failure => step "catch" (rebuildFailed user server stateBefore failure)

/-! ### Going back -/

/-- The version a rollback goes back to. -/
def rollbackTarget (game : GameDefinition) (server : ServerRow) (label : String) :
    Option GameVersion :=
  match server.rollbackVersionId with
  | some id => findVersion game id
  | none => game.versions.find? fun version => version.label == label

/-- Stops the game, restores the world and rebuilds the workload around the version it had. -/
def rollbackClaimed (context : UpdateContext) (backup : BackupRow) (artifact : String)
    (target : GameVersion) (running : Bool) : PanelCode Locals Unit := do
  whenever (running && context.found.row.runtimeId.isSome) do
    report "stopping" "prepare" s!"Stopping {context.found.row.name}"
    let _ ← step "stop" (stopGracefully context.at_ context.ref (some context.game.console) 30)
  report "restoring" "prepare" "Restoring the backup taken before the update"
  let _ ← ask "restore" context.at_ (.restoreArchive context.ref artifact backup.checksum)
  step "rebuild" (rebuildWorkload panel context.found.row context.game target context.at_
    context.ref running true)

/-- What becomes of a rollback that failed. -/
def rollbackFailed (server : ServerRow) (failure : Failure) : PanelCode Locals OpResult := do
  endProgress
  await "error" (.updateServer
    { state := some .error, lastError := some (some s!"Rollback failed: {failure.message}") })
  pure (.refuse "Rollback failed"
    s!"{bare failure.message}. {server.name} is stopped and needs looking at.")

/-- Writes the version down that the server is back on, and unlocks the backup. -/
def recordRollback (user : User) (context : UpdateContext) (backup : BackupRow)
    (target : GameVersion) : PanelCode Locals OpResult := do
  endProgress
  let catalogVersion ← await "catalog" (.findCatalogVersion context.game.id target.id)
  await "version" (.updateServer
    { version := some target.label
      gameVersionId := some (catalogVersion.map CatalogVersion.id)
      installedBuildId := some (catalogVersion.bind CatalogVersion.buildId)
      rollback := some (none, none, none, none)
      lastError := some none, healthDetail := some none, restartAttempts := some 0 })
  await "unlock" (.updateBackup backup.id { state := some .complete })
  logEvent "logged" user.name "server.rolled_back" context.found.row.name .warning
  pure (.done .warning s!"{context.found.row.name} rolled back"
    s!"Back on {target.label}, with the world as it was before the update.")

/-- Rolls a server back to the version and the world it had before its last update. -/
def rollbackServerOp (user : User) (progressKey : Option String) :
    PanelCode Locals OpResult := do
  match ← (step "reach" (reachUpdate panel user true)).attempt with
  | .error failure => pure (.refuse "Cannot roll back" failure.message)
  | .ok context =>
    let server := context.found.row
    match server.rollbackVersionLabel, server.rollbackBackupId with
    | some label, some backupId => do
      let found ← await "backup" (.findBackup backupId)
      match found, found.bind fun found => found.row.artifact with
      | some found, some artifact =>
        match rollbackTarget context.game server label with
        | none => pure (.refuse "That version is gone"
            s!"{label} is no longer in the catalog, so Geeboard cannot reinstall it.")
        | some target => do
          let running ← upOrMeantToBe context
          match ← step "download" (downloadFirst context.at_ target.image progressKey) with
          | some failure => pure (.refuse "Rollback stopped"
              s!"{bare failure.message}. Nothing was changed.")
          | none => do
            match ← claimServer panel .rollback with
            | .busy sentence => pure (.refuse "Busy" sentence)
            | .taken _ _ => do
              match ← (step "try"
                (rollbackClaimed panel context found.row artifact target running)).attempt with
              | .ok _ => step "record" (recordRollback user context found.row target)
              | .error failure => step "catch" (rollbackFailed server failure)
      | _, _ => pure (.refuse "The backup is gone"
          ("The archive taken before the update is no longer on the node, so rolling back would " ++
            "restore nothing."))
    | _, _ => pure (.refuse "Nothing to roll back to"
        (s!"{server.name} has not been updated through Geeboard, so there is no recorded way " ++
          "back."))

end Geeboard.Panel
