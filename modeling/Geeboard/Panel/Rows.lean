/-
This file holds the rows of the panel's database that its operations on a server
read and write, and what the operations say when they end.

An update names the columns it writes and leaves the others alone, so that
"writes the state by its id alone" is something a theorem can say of a call. A
guarded update names, beside them, what the row must still say.
-/

import Geeboard.Panel.State
import Geeboard.Panel.Versions

namespace Geeboard.Panel

abbrev ServerId := String
abbrev NodeId := String
abbrev UserId := String
abbrev BackupId := Nat
abbrev RuntimeId := Nat
abbrev Port := Nat

/-! ### Failures and results -/

/-- The machine codes of the failures met here. -/
inductive ErrorCode where
  | forbidden | validationFailed | notFound | conflict | gameNotFound | nodeNotFound
  | nodeIncompatible | runtimeUnreachable | runtimeFailed | runtimeRejected | runtimeNotAttached
  | serverInstallationFailed | databaseUnavailable | internal
  deriving DecidableEq, Repr

/-- A failure: its code and its sentence, and the details some callers look at. -/
structure Failure where
  code : ErrorCode
  message : String
  step : Option String := none
  untouched : Bool := false
  agentCode : Option String := none
  uniqueViolation : Bool := false
  deriving DecidableEq, Repr

/-- How the sentence of a successful operation is shown. -/
inductive ResultTone where
  | success | warning
  deriving DecidableEq, Repr

/-- What an operation tells the person who asked for it. -/
inductive OpResult where
  | done (tone : ResultTone) (title body : String)
  | refused (title body : String) (code : Option ErrorCode) (field : Option String)
  deriving DecidableEq, Repr

namespace OpResult

def body : OpResult → String
  | done _ _ body => body
  | refused _ body _ _ => body

/-- A refusal with nothing but its words. -/
def refuse (title body : String) : OpResult := refused title body none none

end OpResult

/-- Who asks. -/
structure User where
  id : UserId
  name : String
  placesServers : Bool
  deriving DecidableEq, Repr

/-! ### A server's row -/

/-- The settings a server's files and its workload are rendered from. -/
abbrev Settings := List (String × String)

/-- What a workload was made from, as the row remembers it. -/
structure WorkloadSpec where
  version : GameVersion
  port : Port
  memoryGb : Nat
  cpuLimit : Nat
  deriving DecidableEq, Repr

inductive RestartPolicy where
  | never | onFailure | always
  deriving DecidableEq, Repr

/-- The columns of a server's row. -/
structure ServerRow where
  id : ServerId
  slug : String
  name : String
  ownerId : Option UserId
  gameId : Option GameId
  version : String
  gameVersionId : Option String
  state : ServerState
  nodeId : NodeId
  host : String
  port : Port
  memoryLimit : Nat
  cpuLimit : Nat
  settings : Settings
  runtimeId : Option RuntimeId
  builtSpec : Option WorkloadSpec
  lastError : Option String
  operation : Option Operation
  operationOwner : Option String
  operationStartedAt : Option Time
  operationBeat : Option Time
  stateBefore : Option ServerState
  updatedAt : Time
  startedAt : Option Time
  readyAt : Option Time
  healthDetail : Option String
  playersOn : Nat
  cpuPct : Nat
  ramPct : Nat
  restartPolicy : RestartPolicy
  restartAttempts : Nat
  maxRestarts : Nat
  lastRestartAt : Option Time
  installedBuildId : Option String
  rollbackVersionId : Option VersionId
  rollbackVersionLabel : Option String
  rollbackBackupId : Option BackupId
  rollbackAt : Option Time
  installKey : Option String
  installStep : Option String
  installMessage : Option String
  deriving DecidableEq, Repr

namespace ServerRow

/-- What is read of it to say who has it. -/
def asHeld (row : ServerRow) : Held := ⟨row.state, row.operation, row.operationStartedAt⟩

end ServerRow

/-- An update of a server's row: the columns it writes. -/
structure ServerChange where
  state : Option ServerState := none
  lastError : Option (Option String) := none
  nodeId : Option NodeId := none
  port : Option Port := none
  runtimeId : Option (Option RuntimeId) := none
  builtSpec : Option (Option WorkloadSpec) := none
  version : Option String := none
  gameVersionId : Option (Option String) := none
  installedBuildId : Option (Option String) := none
  rollback : Option (Option VersionId × Option String × Option BackupId × Option Time) := none
  operation : Option (Option Operation) := none
  operationOwner : Option (Option String) := none
  operationStartedAt : Option (Option Time) := none
  operationBeat : Option (Option Time) := none
  stateBefore : Option (Option ServerState) := none
  startedAt : Option (Option Time) := none
  readyAt : Option (Option Time) := none
  healthDetail : Option (Option String) := none
  playersOn : Option Nat := none
  cpuPct : Option Nat := none
  ramPct : Option Nat := none
  restartAttempts : Option Nat := none
  lastRestartAt : Option (Option Time) := none
  installKey : Option (Option String) := none
  installStep : Option (Option String) := none
  installMessage : Option (Option String) := none
  deriving DecidableEq, Repr

/-- Writes the columns an update names. -/
def ServerRow.apply (row : ServerRow) (change : ServerChange) (now : Time) : ServerRow :=
  { row with
    state := change.state.getD row.state
    lastError := change.lastError.getD row.lastError
    nodeId := change.nodeId.getD row.nodeId
    port := change.port.getD row.port
    runtimeId := change.runtimeId.getD row.runtimeId
    builtSpec := change.builtSpec.getD row.builtSpec
    version := change.version.getD row.version
    gameVersionId := change.gameVersionId.getD row.gameVersionId
    installedBuildId := change.installedBuildId.getD row.installedBuildId
    rollbackVersionId := (change.rollback.map fun way => way.1).getD row.rollbackVersionId
    rollbackVersionLabel := (change.rollback.map fun way => way.2.1).getD row.rollbackVersionLabel
    rollbackBackupId := (change.rollback.map fun way => way.2.2.1).getD row.rollbackBackupId
    rollbackAt := (change.rollback.map fun way => way.2.2.2).getD row.rollbackAt
    operation := change.operation.getD row.operation
    operationOwner := change.operationOwner.getD row.operationOwner
    operationStartedAt := change.operationStartedAt.getD row.operationStartedAt
    operationBeat := change.operationBeat.getD row.operationBeat
    stateBefore := change.stateBefore.getD row.stateBefore
    startedAt := change.startedAt.getD row.startedAt
    readyAt := change.readyAt.getD row.readyAt
    healthDetail := change.healthDetail.getD row.healthDetail
    playersOn := change.playersOn.getD row.playersOn
    cpuPct := change.cpuPct.getD row.cpuPct
    ramPct := change.ramPct.getD row.ramPct
    restartAttempts := change.restartAttempts.getD row.restartAttempts
    lastRestartAt := change.lastRestartAt.getD row.lastRestartAt
    installKey := change.installKey.getD row.installKey
    installStep := change.installStep.getD row.installStep
    installMessage := change.installMessage.getD row.installMessage
    updatedAt := now }

/-- The row as a claim leaves it. -/
def ServerRow.claimedBy (row : ServerRow) (operation : Operation) (owner : String)
    (since : Time) : ServerRow :=
  { row with
    stateBefore := some row.state
    state := OPERATION_STATE operation
    operation := some operation
    operationOwner := some owner
    operationStartedAt := some since
    operationBeat := some since }

/-! ### A backup's row -/

inductive BackupState where
  | running | complete | failed | locked
  deriving DecidableEq, Repr

inductive BackupTrigger where
  | manual | scheduled | preUpdate | preDelete
  deriving DecidableEq, Repr

inductive BackupStore where
  | local_ | s3
  deriving DecidableEq, Repr

/-- What a directory holds: its files by path. -/
abbrev Contents := List (String × String)

/-- A digest stands for what it is the digest of: two archives of one digest hold the same. -/
abbrev Checksum := Contents

/-- The columns of a backup's row. -/
structure BackupRow where
  id : BackupId
  serverId : Option ServerId
  name : String
  sizeBytes : Nat
  trigger : BackupTrigger
  state : BackupState
  checksum : Option Checksum
  store : Option BackupStore
  artifact : Option String
  durationMs : Option Nat
  error : Option String
  originServerId : Option ServerId
  originServerName : Option String
  originGameId : Option GameId
  originOwnerId : Option UserId
  createdAt : Time
  deriving DecidableEq, Repr

/-- An update of a backup's row: the columns it writes. -/
structure BackupChange where
  state : Option BackupState := none
  sizeBytes : Option Nat := none
  checksum : Option Checksum := none
  store : Option BackupStore := none
  artifact : Option String := none
  durationMs : Option Nat := none
  error : Option String := none
  deriving DecidableEq, Repr

def BackupRow.apply (row : BackupRow) (change : BackupChange) : BackupRow :=
  { row with
    state := change.state.getD row.state
    sizeBytes := change.sizeBytes.getD row.sizeBytes
    checksum := change.checksum <|> row.checksum
    store := change.store <|> row.store
    artifact := change.artifact <|> row.artifact
    durationMs := change.durationMs <|> row.durationMs
    error := change.error <|> row.error }

@[simp] theorem BackupRow.id_apply (row : BackupRow) (change : BackupChange) :
    (row.apply change).id = row.id := rfl

/-- Which backups of the server a query is about. -/
structure BackupFilter where
  states : Option (List BackupState) := none
  notInBucket : Bool := false
  localArtifact : Option String := none
  named : Option String := none
  deriving DecidableEq, Repr

def BackupFilter.admits (filter : BackupFilter) (serverId : ServerId) (row : BackupRow) : Bool :=
  row.serverId == some serverId &&
    (match filter.states with
      | some states => states.contains row.state
      | none => true) &&
    (!filter.notInBucket || (row.store.isSome && row.store != some .s3)) &&
    (filter.localArtifact.all fun artifact =>
      row.store == some .local_ && row.artifact == some artifact) &&
    (match filter.named with
      | some start => start.toList.isPrefixOf row.name.toList
      | none => true)

/-! ### The rest of what is read -/

/-- A node's row. -/
structure NodeRow where
  id : NodeId
  name : String
  daemonUrl : Option String
  daemonToken : Option String
  capabilities : List String
  contract : Option Nat
  daemon : Option String
  deriving DecidableEq, Repr

/-- The agent of a node, when the node has one attached. -/
def runtimeFor (node : NodeRow) : Option NodeId :=
  if node.daemonUrl.isSome && node.daemonToken.isSome then some node.id else none

/-- A version's row in the catalog. -/
structure CatalogVersion where
  id : String
  gameId : GameId
  slug : VersionId
  buildId : Option String
  deriving DecidableEq, Repr

/-- The bucket for off-site archives. -/
structure OffsiteTarget where
  bucket : String
  keyStart : String
  scheduledOffsite : Bool
  deriving DecidableEq, Repr

/-- The key an archive has in the bucket. -/
def archiveKey (keyStart : String) (serverId : ServerId) (artifact : String) : String :=
  let slash := fun char => char == '/'
  let clean := String.ofList
    ((keyStart.toList.dropWhile slash).reverse.dropWhile slash).reverse
  if clean = "" then s!"{serverId}/{artifact}" else s!"{clean}/{serverId}/{artifact}"

end Geeboard.Panel
