/-
This file is the world an operation of the panel works on, and the calls it makes.

The world is one server as everybody has it: its row and its backups' rows in the
database, its directory, its workload and its archives on the nodes, its archives
in the bucket, and the timers that say an operation is alive. A call is one
awaited step; it is done, fails without effect, or takes effect and then fails.
What a node answers that nothing here decides (whether a game has exited by
itself, how far it got with a workload it then refuses to make) belongs to the
outcome of the call.

Three things are kept for the statements only, and no operation reads them: what
each workload was made from, which builds were started on a directory and which
backups were restored into it, and whether a running game was asked to stop.
-/

import Geeboard.Effects.Run
import Geeboard.Panel.Rows
import Mathlib.Logic.Function.Basic

namespace Geeboard.Panel

/-! ### The nodes -/

/-- What happened to a directory that matters to the next build that opens it. -/
inductive Opening where
  | started (version : GameVersion)
  | restored (takenOn : Option GameVersion)
  deriving DecidableEq, Repr

/-- A server's directory on a node, with the latest opening first. -/
structure Directory where
  contents : Contents
  openings : List Opening
  deriving DecidableEq, Repr

/-- An archive: what it holds, its size, and the version its server was on when it was taken. -/
structure Archive where
  contents : Contents
  sizeBytes : Nat
  takenOn : Option GameVersion
  deriving DecidableEq, Repr

def Archive.checksum (archive : Archive) : Checksum := archive.contents

/-- What a node is asked to make a workload from. -/
structure Plan where
  serverId : ServerId
  slug : String
  game : GameDefinition
  version : GameVersion
  port : Port
  memoryGb : Nat
  cpuLimit : Nat
  deriving DecidableEq, Repr

/-- A server's workload on a node. -/
structure Workload where
  id : RuntimeId
  plan : Plan
  state : RuntimeState
  asked : Bool
  deriving DecidableEq, Repr

/-- What a node has of the server. -/
structure Node where
  directory : Option Directory
  workload : Option Workload
  archives : String → Option Archive

/-- How a server is addressed on its node. -/
structure RuntimeRef where
  serverId : ServerId
  runtimeId : Option RuntimeId
  deriving DecidableEq, Repr

structure RuntimeStatus where
  id : RuntimeId
  state : RuntimeState
  startedAt : Option Time
  deriving DecidableEq, Repr

structure ArchiveResult where
  artifact : String
  sizeBytes : Nat
  checksum : Checksum
  durationMs : Nat
  warnings : List String
  deriving DecidableEq, Repr

structure FileRead where
  content : String
  truncated : Bool
  deriving DecidableEq, Repr

/-! ### The world -/

structure World where
  server : Option ServerRow
  backups : List BackupRow
  nodeRows : List NodeRow
  catalog : List CatalogVersion
  offsite : Option OffsiteTarget
  portsTaken : List (NodeId × Port)
  nodes : NodeId → Node
  bucket : String → Option Archive
  beats : List Time
  clock : Time
  nextBackup : BackupId
  nextRuntime : RuntimeId
  madeFrom : RuntimeId → Option GameVersion

/-- How a call turns out. -/
inductive Fault where
  | done | failed | doneThenFailed
  deriving DecidableEq, Repr

/-- The call takes effect: it is done, or it fails only afterwards. -/
def Fault.takesEffect : Fault → Bool
  | .failed => false
  | _ => true

/-- How far a node gets with a workload before the step that may refuse it: not at all, to its
directory, or until what was in its way is removed. -/
inductive Begun where
  | nothing | directory | cleared
  deriving DecidableEq, Repr

/-- The outcome of a call: how it turns out, the failure it then raises, and whatever the
answer depends on beside the world. -/
structure Outcome where
  fault : Fault := .done
  failure : Failure := { code := .internal, message := "" }
  elapsed : Time := 0
  drift : Option RuntimeState := none
  slow : Bool := false
  truncated : Bool := false
  lines : List String := []
  warnings : List String := []
  sizeBytes : Nat := 1
  begun : Begun := .nothing

namespace Outcome

def takesEffect (outcome : Outcome) : Bool := outcome.fault.takesEffect

end Outcome

/-! ### The calls -/

/-- What a server's row is read with. -/
structure FoundServer where
  row : ServerRow
  node : NodeRow
  versionSlug : Option VersionId
  deriving DecidableEq, Repr

/-- A backup's row with its server's, when it still has one. -/
structure FoundBackup where
  row : BackupRow
  server : Option ServerRow
  deriving DecidableEq, Repr

structure NewBackup where
  serverId : ServerId
  name : String
  trigger : BackupTrigger
  deriving DecidableEq, Repr

/-- An entry of the activity log. -/
structure ActivityEvent where
  actor : String
  action : String
  target : String
  tone : Tone
  deriving DecidableEq, Repr

/-- The calls to a node's agent, about the one server. -/
inductive NodeCall where
  | status (ref : RuntimeRef)
  | start (ref : RuntimeRef)
  | stop (ref : RuntimeRef) (graceSeconds : Nat)
  | sendCommand (ref : RuntimeRef) (line : String)
  | logs (ref : RuntimeRef)
  | fetchSource (image : String)
  | provision (plan : Plan)
  | destroy (ref : RuntimeRef) (withData : Bool)
  | readFile (ref : RuntimeRef) (path : String)
  | writeFile (ref : RuntimeRef) (path content : String)
  | createArchive (ref : RuntimeRef) (name : String)
  | uploadArchive (ref : RuntimeRef) (artifact key : String)
  | removeArchive (ref : RuntimeRef) (artifact : String)
  | restoreArchive (ref : RuntimeRef) (artifact : String) (checksum : Option Checksum)
  deriving DecidableEq

/-- The awaited calls of the panel's operations on one server. -/
inductive Call where
  | findServer
  | claimServer (operation : Operation) (owner : String) (since : Time)
  | startBeat (since : Time)
  | updateServer (change : ServerChange)
  | findNodeById (id : NodeId)
  | countBackups (filter : BackupFilter)
  | findBackup (id : BackupId)
  | createBackup (data : NewBackup)
  | updateBackup (id : BackupId) (change : BackupChange)
  | createEvent (event : ActivityEvent)
  | findCatalogVersion (gameId : GameId) (slug : VersionId)
  | offsiteTarget
  | now
  | wait (ms : Time)
  | node (at_ : NodeId) (call : NodeCall)
  deriving DecidableEq

/-- What the answer to a call to a node holds. -/
abbrev NodeCall.Reply : NodeCall → Type
  | .status _ => RuntimeStatus
  | .start _ => RuntimeStatus
  | .stop _ _ => RuntimeStatus
  | .sendCommand _ _ => Unit
  | .logs _ => List String
  | .fetchSource _ => Unit
  | .provision _ => RuntimeStatus
  | .destroy _ _ => Unit
  | .readFile _ _ => FileRead
  | .writeFile _ _ _ => Unit
  | .createArchive _ _ => ArchiveResult
  | .uploadArchive _ _ _ => Nat × Nat
  | .removeArchive _ _ => Unit
  | .restoreArchive _ _ _ => Nat

/-- What the answer to a call holds. -/
abbrev Call.Reply : Call → Type
  | .findServer => Option FoundServer
  | .claimServer _ _ _ => Option ServerState
  | .startBeat _ => Unit
  | .updateServer _ => Unit
  | .findNodeById _ => Option NodeRow
  | .countBackups _ => Nat
  | .findBackup _ => Option FoundBackup
  | .createBackup _ => BackupId
  | .updateBackup _ _ => Unit
  | .createEvent _ => Unit
  | .findCatalogVersion _ _ => Option CatalogVersion
  | .offsiteTarget => Option OffsiteTarget
  | .now => Time
  | .wait _ => Unit
  | .node _ call => call.Reply

/-- The panel's calls. Steps are told apart by a word or by a number. -/
abbrev interface : Effects.Interface where
  Call := Call
  Reply := Call.Reply
  Failure := Failure
  Label := String

/-! ### What the calls do to the world -/

namespace World

def setNode (world : World) (at_ : NodeId) (node : Node) : World :=
  { world with nodes := Function.update world.nodes at_ node }

@[simp] theorem nodes_setNode (world : World) (at_ : NodeId) (node : Node) :
    (world.setNode at_ node).nodes = Function.update world.nodes at_ node := rfl

/-- The id of the catalog's version a row links to. -/
def slugOf (world : World) (row : ServerRow) : Option VersionId :=
  row.gameVersionId.bind fun id =>
    (world.catalog.find? fun version => version.id == id).map CatalogVersion.slug

/-- The server's row with what it is read with. -/
def found (world : World) : Option FoundServer := do
  let row ← world.server
  let node ← world.nodeRows.find? fun node => node.id == row.nodeId
  pure ⟨row, node, world.slugOf row⟩

/-- A backup's row with its server's. -/
def foundBackup (world : World) (id : BackupId) : Option FoundBackup :=
  (world.backups.find? fun backup => backup.id == id).map fun row =>
    ⟨row, world.server.filter fun server => row.serverId == some server.id⟩

/-- The id of the server, for the queries that name it. -/
def serverId (world : World) : ServerId := (world.server.map ServerRow.id).getD ""

/-- Writes an update into the backups' rows that are chosen. -/
def changeBackups (world : World) (chosen : BackupRow → Bool) (change : BackupChange) : World :=
  { world with
    backups := world.backups.map fun backup =>
      if chosen backup then backup.apply change else backup }

end World

def notFound (message : String) : Failure := { code := .notFound, message := message }

/-- The workload a reference names, when the node has it. -/
def Node.named (node : Node) (ref : RuntimeRef) : Except Failure Workload :=
  match ref.runtimeId with
  | none => .error
    { code := .runtimeNotAttached
      message := "This server has no running workload on its node yet." }
  | some id => match node.workload with
    | some workload =>
      if workload.id = id then .ok workload else .error (notFound "no such container")
    | none => .error (notFound "no such container")

/-- What a node without a workload does not have in its way. -/
def Node.destroyed (node : Node) (withData : Bool) : Node :=
  if withData then ⟨none, none, fun _ => none⟩ else { node with workload := none }

/-- The state a started game is in when the node answers. -/
def Outcome.startedState (outcome : Outcome) : RuntimeState :=
  if outcome.slow then .starting else .running

/-- A game that is up may have changed its state by itself since the last look. -/
def Workload.drifted (workload : Workload) (drift : Option RuntimeState) : Workload :=
  match drift with
  | some state => if workload.state.up then { workload with state := state } else workload
  | none => workload

def Node.drifted (node : Node) (drift : Option RuntimeState) : Node :=
  { node with workload := node.workload.map fun workload => workload.drifted drift }

/-- The workload once a stop is over: asked to stop, and down if it was up. -/
def Workload.stopped (workload : Workload) : Workload :=
  if workload.state.up then { workload with state := .stopped, asked := true }
  else { workload with asked := true }

/-- A start of the workload, on the directory it finds. -/
def Node.start (node : Node) (workload : Workload) (outcome : Outcome) : Node :=
  { node with
    workload := some { workload with state := outcome.startedState, asked := false }
    directory := node.directory.map fun directory =>
      { directory with openings := .started workload.plan.version :: directory.openings } }

def Contents.write (contents : Contents) (path content : String) : Contents :=
  (path, content) :: contents.filter fun file => file.1 != path

def statusOf (workload : Workload) (clock : Time) : RuntimeStatus :=
  ⟨workload.id, workload.state, if workload.state.up then some clock else none⟩

/-- The version a server is on, by its row. -/
def recordedVersion (findGame : GameId → Option GameDefinition) (found : FoundServer) :
    Option GameVersion := do
  let game ← found.row.gameId.bind findGame
  versionOfServer game found.versionSlug found.row.version

section Perform

variable (findGame : GameId → Option GameDefinition)

/-- The answer of a node and the world after it, of a call that is carried out. -/
def performNode (at_ : NodeId) (outcome : Outcome) : (call : NodeCall) → World →
    Except Failure (call.Reply × World)
  | .status ref, world => do
    let workload ← (world.nodes at_).named ref
    pure (statusOf workload world.clock, world)
  | .start ref, world => do
    let node := world.nodes at_
    let workload ← node.named ref
    if workload.state.up then pure (statusOf workload world.clock, world)
    else
      pure (⟨workload.id, outcome.startedState, some world.clock⟩,
        world.setNode at_ (node.start workload outcome))
  | .stop ref _, world => do
    let node := world.nodes at_
    let workload ← node.named ref
    let stopped := workload.stopped
    pure (statusOf stopped world.clock, world.setNode at_ { node with workload := some stopped })
  | .sendCommand ref line, world => do
    let node := world.nodes at_
    let workload ← node.named ref
    if workload.plan.game.console.stopCommand = some line then
      pure ((), world.setNode at_ { node with workload := some { workload with asked := true } })
    else pure ((), world)
  | .logs ref, world => do
    let _ ← (world.nodes at_).named ref
    pure (outcome.lines, world)
  | .fetchSource _, world => pure ((), world)
  | .provision plan, world =>
    let node := world.nodes at_
    let id := world.nextRuntime
    let directory := node.directory.getD ⟨[], []⟩
    let made := { world.setNode at_
        { node with directory := some directory, workload := some ⟨id, plan, .stopped, false⟩ } with
      nextRuntime := id + 1
      madeFrom := Function.update world.madeFrom id (some plan.version) }
    pure (⟨id, .stopped, none⟩, made)
  | .destroy ref withData, world =>
    let node := world.nodes at_
    let named : Bool := match ref.runtimeId with
      | none => true
      | some id => node.workload.any fun workload => workload.id == id
    pure ((), if named then world.setNode at_ (node.destroyed withData) else world)
  | .readFile _ path, world =>
    match (world.nodes at_).directory.bind fun directory => directory.contents.lookup path with
    | some content => pure (⟨content, outcome.truncated⟩, world)
    | none => .error (notFound "no such file")
  | .writeFile _ path content, world =>
    let node := world.nodes at_
    match node.directory with
    | some directory =>
      let written := { directory with contents := directory.contents.write path content }
      pure ((), world.setNode at_ { node with directory := some written })
    | none => .error (notFound "that server has no directory here")
  | .createArchive _ name, world =>
    let node := world.nodes at_
    let artifact := s!"{name}.tar.gz"
    match node.directory, node.archives artifact with
    | some directory, none =>
      let archive : Archive :=
        ⟨directory.contents, outcome.sizeBytes, world.found.bind (recordedVersion findGame)⟩
      pure (⟨artifact, archive.sizeBytes, archive.checksum, outcome.elapsed, outcome.warnings⟩,
        world.setNode at_
          { node with archives := Function.update node.archives artifact (some archive) })
    | none, _ => .error (notFound "that server has no data directory to archive")
    | some _, some _ => .error
      { code := .conflict, message := "there is an archive of that name already" }
  | .uploadArchive _ artifact key, world =>
    match (world.nodes at_).archives artifact with
    | some archive =>
      pure ((archive.sizeBytes, outcome.elapsed),
        { world with bucket := Function.update world.bucket key (some archive) })
    | none => .error (notFound "no such archive")
  | .removeArchive _ artifact, world =>
    let node := world.nodes at_
    match node.archives artifact with
    | some _ => pure ((), world.setNode at_
      { node with archives := Function.update node.archives artifact none })
    | none => .error (notFound "no such archive")
  | .restoreArchive _ artifact checksum, world =>
    let node := world.nodes at_
    match node.archives artifact with
    | some archive =>
      if checksum.all fun checksum => checksum == archive.checksum then
        let openings := (node.directory.map Directory.openings).getD []
        let restored : Directory := ⟨archive.contents, .restored archive.takenOn :: openings⟩
        pure (archive.contents.length, world.setNode at_ { node with directory := some restored })
      else .error { code := .runtimeRejected, message := "the archive is not the one that was " ++
        "recorded" }
    | none => .error (notFound "no such archive")

/-- The answer and the world after it, of a call that is carried out. -/
def perform (outcome : Outcome) : (call : Call) → World → Except Failure (call.Reply × World)
  | .findServer, world => pure (world.found, world)
  | .claimServer operation owner since, world =>
    match world.server with
    | some row =>
      if row.state.operable then
        pure (some row.state,
          { world with server := some (row.claimedBy operation owner since) })
      else pure (none, world)
    | none => pure (none, world)
  | .startBeat since, world => pure ((), { world with beats := since :: world.beats })
  | .updateServer change, world =>
    match world.server with
    | some row =>
      let after := row.apply change world.clock
      if (after.nodeId, after.port) ≠ (row.nodeId, row.port) ∧
          (after.nodeId, after.port) ∈ world.portsTaken then
        .error { code := .conflict, message := "unique", uniqueViolation := true }
      else pure ((), { world with server := some after })
    | none => .error (notFound "no such record")
  | .findNodeById id, world =>
    pure (world.nodeRows.find? fun node => node.id == id, world)
  | .countBackups filter, world =>
    pure ((world.backups.filter (filter.admits world.serverId)).length, world)
  | .findBackup id, world => pure (world.foundBackup id, world)
  | .createBackup data, world =>
    let row : BackupRow :=
      { id := world.nextBackup, serverId := some data.serverId, name := data.name, sizeBytes := 0
        trigger := data.trigger, state := .running, checksum := none, store := none
        artifact := none, durationMs := none, error := none, originServerId := none
        originServerName := none, originGameId := none, originOwnerId := none, createdAt := world.clock }
    pure (row.id, { world with
      backups := world.backups ++ [row], nextBackup := world.nextBackup + 1 })
  | .updateBackup id change, world =>
    if world.backups.any fun backup => backup.id == id then
      pure ((), world.changeBackups (fun backup => backup.id == id) change)
    else .error (notFound "no such record")
  | .createEvent _, world => pure ((), world)
  | .findCatalogVersion gameId slug, world =>
    pure (world.catalog.find? fun version => version.gameId == gameId && version.slug == slug,
      world)
  | .offsiteTarget, world => pure (world.offsite, world)
  | .now, world => pure (world.clock, world)
  | .wait ms, world => pure ((), { world with clock := world.clock + ms })
  | .node at_ call, world => performNode findGame at_ outcome call world

/-- The clock and the timers are asked without anybody answering: nothing there can fail. -/
def Call.canFail : Call → Bool
  | .startBeat _ => false
  | .now => false
  | .wait _ => false
  | _ => true

/-- The statements that write the server's row. -/
def Call.writesServer : Call → Bool
  | .claimServer _ _ _ => true
  | .updateServer _ => true
  | _ => false

/-- The statements that write the backups' rows. -/
def Call.writesBackups : Call → Bool
  | .createBackup _ => true
  | .updateBackup _ _ => true
  | _ => false

/-- The calls to a node's agent. -/
def Call.onNode : Call → Bool
  | .node _ _ => true
  | _ => false

/-- What a node has once a workload was begun on it. -/
def Node.begun (node : Node) : Begun → Node
  | .nothing => node
  | .directory => { node with directory := some (node.directory.getD ⟨[], []⟩) }
  | .cleared => { node with directory := some (node.directory.getD ⟨[], []⟩), workload := none }

/-- Before a call is carried out or refused time passes, the game on the node that is asked may
have changed by itself, and a workload that is asked for may have been begun. -/
def World.later (world : World) (outcome : Outcome) : Call → World
  | .node at_ (.provision _) =>
    { world.setNode at_ (((world.nodes at_).drifted outcome.drift).begun outcome.begun) with
      clock := world.clock + outcome.elapsed }
  | .node at_ _ =>
    { world.setNode at_ ((world.nodes at_).drifted outcome.drift) with
      clock := world.clock + outcome.elapsed }
  | _ => { world with clock := world.clock + outcome.elapsed }

/-- The answer to a call and the world after it, for every way it can turn out. -/
def answer (outcome : Outcome) (call : Call) (world : World) :
    Except Failure call.Reply × World :=
  let now := world.later outcome call
  let fault := if call.canFail then outcome.fault else .done
  match fault, perform findGame outcome call now with
  | .failed, _ => (.error outcome.failure, now)
  | .done, .ok (reply, after) => (.ok reply, after)
  | .doneThenFailed, .ok (_, after) => (.error outcome.failure, after)
  | _, .error failure => (.error failure, now)

/-- The panel's machine. Who calls is a number, for the runs in which several operations take
turns. -/
abbrev machine : Effects.Machine interface where
  World := World
  Outcome := Outcome
  Actor := Nat
  answer := fun _ outcome call world => answer findGame outcome call world

end Perform

end Geeboard.Panel
