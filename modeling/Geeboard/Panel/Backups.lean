/-
This file is how a backup of a server is taken.

A backup holds the server while it is taken, unless its caller holds it already.
Its row is made after the claim and outside the block that catches failures; the
block records the archive, gives the state back and logs it, and its handler
removes the archive nothing took ownership of, marks the row failed and gives the
state back.
-/

import Geeboard.Panel.Install

namespace Geeboard.Panel

open Effects Effects.Code

variable {Locals : Type} (panel : Workspace)

/-! ### Reaching a server's archives -/

/-- Why reaching a server's archives failed. -/
inductive Unreachable where
  | missing | forbidden | detached
  deriving DecidableEq, Repr

/-- The server, its node's agent and how the server is addressed there, or why not. -/
inductive Reached where
  | here (found : FoundServer) (at_ : NodeId) (ref : RuntimeRef)
  | not (kind : Unreachable) (result : OpResult)

def refFor (server : ServerRow) : RuntimeRef := ⟨server.id, server.runtimeId⟩

/-- Reads the server and finds its node's agent, for somebody who may use its backups. -/
def reachBackups (user : User) (need : String) : PanelCode Locals Reached := do
  match ← await "server" .findServer with
  | none => pure (.not .missing (.refuse "Cannot back up" "That server no longer exists."))
  | some found =>
    if panel.may user need found.row.ownerId then
      match runtimeFor found.node with
      | none => pure (.not .detached (.refuse "No agent on this node"
          s!"{found.node.name} has no agent attached, so there is nothing to archive."))
      | some at_ => pure (.here found at_ (refFor found.row))
    else pure (.not .forbidden
      (.refuse "Not permitted" "You cannot manage this server's backups."))

/-- A name for the archive that no row of the server's has yet: dated, and counted. -/
def freeName (start : String) : PanelCode Locals String := do
  let now ← await "today" .now
  let base := s!"{start}-{panel.dateStamp now}"
  let taken ← await "taken" (.countBackups { named := some base })
  pure (if taken = 0 then base else s!"{base}-{taken + 1}")

/-! ### Taking one -/

/-- A size as it is told: gigabytes with two decimals, halves rounded up. -/
def gigabytes (bytes : Nat) : String :=
  let hundredths := (bytes * 200 + 1024 ^ 3) / (2 * 1024 ^ 3)
  let cents := hundredths % 100
  let zero := if cents < 10 then "0" else ""
  s!"{hundredths / 100}.{zero}{cents} GB"

/-- What is said of a backup that is whole but not quite what was asked for. -/
def backupNotes (nodeName : String) (uploadFailure : Option String) (warnings : List String) :
    List String :=
  (uploadFailure.map fun said =>
    s!"The off-site copy failed ({said}), so the archive is kept on {nodeName} instead.").toList ++
  if warnings.isEmpty then [] else
    let plural := if warnings.length = 1 then "" else "s"
    let more := if 3 < warnings.length then "…" else ""
    let first := "; ".intercalate (warnings.take 3)
    [s!"{warnings.length} file{plural} changed while it was being archived: {first}{more}."]

structure BackupOptions where
  trigger : Option BackupTrigger := none
  skipQuiesce : Bool := false
  store : Option BackupStore := none
  named : Option String := none
  held : Bool := false
  deriving DecidableEq, Repr

/-- The variables the two halves of a backup share. -/
structure BackupLocals where
  quiesced : Bool := false
  resumed : Bool := false
  archive : Option ArchiveResult := none

/-- A result that may name a backup. -/
abbrev BackupResult := OpResult × Option BackupId

/-- What a backup has found out before it takes anything. -/
structure BackupJob where
  server : ServerRow
  nodeName : String
  at_ : NodeId
  ref : RuntimeRef
  dialect : Option ConsoleDialect
  name : String
  store : BackupStore
  offsite : Option OffsiteTarget
  skipQuiesce : Bool

/-- Gives a game whose save was paused its saving back, once. -/
def resume (job : BackupJob) : PanelCode BackupLocals Unit := step "resume" do
  let locals ← read
  if locals.resumed then pure () else do
    assign fun locals => { locals with resumed := true }
    match locals.quiesced, job.dialect.bind ConsoleDialect.resumeCommand with
    | true, some command => swallowed (ask "command" job.at_ (.sendCommand job.ref command))
    | _, _ => pure ()

/-- Asks the console once a second whether the game has finished saving, until the deadline is
over. A question waits a second, so there is at most one more than the allowance has seconds. -/
def waitForSave (at_ : NodeId) (ref : RuntimeRef) (ready : SaveReady) (deadline : Time) :
    Nat → PanelCode Locals Unit
  | 0 => pure ()
  | questions + 1 => do
    swallowed (ask "ask" at_ (.sendCommand ref ready.command))
    await "sleep" (.wait POLL_MS)
    let lines ← (ask "logs" at_ (.logs ref)).attempt
    let now ← await "now" .now
    if (lines.toOption.getD []).any (panel.testPattern ready.pattern) then pure ()
    else if deadline ≤ now then pure ()
    else step "again" (waitForSave at_ ref ready deadline questions)

/-- Has a running game save before it is archived. -/
def quiesce (job : BackupJob) : PanelCode BackupLocals Unit := step "quiesce" do
  match job.dialect.bind ConsoleDialect.saveCommand with
  | none => pure ()
  | some command =>
    whenever (!job.skipQuiesce && job.server.state == .running && job.server.runtimeId.isSome) do
      let sent ← (ask "save" job.at_ (.sendCommand job.ref command)).succeeded
      assign fun locals => { locals with quiesced := sent }
      match sent, job.dialect.bind ConsoleDialect.saveReady with
      | true, some ready => do
        let now ← await "now" .now
        await "breath" (.wait POLL_MS)
        step "ready" (waitForSave panel job.at_ job.ref ready
          (now + ready.timeoutSeconds * 1000) (ready.timeoutSeconds + 1))
      | _, _ => await "pause" (.wait 2000)

/-- One upload of the archive, which has to take all of it. -/
def sendArchive (job : BackupJob) (archive : ArchiveResult) (key : String) :
    PanelCode BackupLocals Nat := do
  let sent ← ask "upload" job.at_ (.uploadArchive job.ref archive.artifact key)
  if sent.1 = archive.sizeBytes then pure sent.2
  else
    throw
      { code := .runtimeRejected
        message := "the bucket took a different number of bytes than the archive has" }

/-- Two uploads, the second when the first failed. -/
def sendTwice (job : BackupJob) (archive : ArchiveResult) (key : String) :
    PanelCode BackupLocals (Except Failure Nat) := do
  match ← (step "first" (sendArchive job archive key)).attempt with
  | .ok ms => pure (.ok ms)
  | .error _ => (step "second" (sendArchive job archive key)).attempt

/-- Where the archive ends up: in the bucket when it is wanted there and two uploads do not both
fail, else on the node. -/
def keepArchive (job : BackupJob) (archive : ArchiveResult) :
    PanelCode BackupLocals (BackupStore × Nat × Option String) :=
  match job.store, job.offsite with
  | .s3, some offsite => do
    let key := archiveKey offsite.keyStart job.server.id archive.artifact
    match ← sendTwice job archive key with
    | .ok ms => do
      swallowed (ask "local" job.at_ (.removeArchive job.ref archive.artifact))
      pure (.s3, archive.durationMs + ms, none)
    | .error failure => pure (.local_, archive.durationMs, some failure.message)
  | _, _ => pure (job.store, archive.durationMs, none)

/-- Gives the server the state back that it had before the claim, when there was one. -/
def giveBack (label : String) (stateBefore : Option ServerState) : PanelCode Locals Unit :=
  match stateBefore with
  | some state => await label (.updateServer { state := some state })
  | none => pure ()

/-- The archive is made, kept and recorded, and the server given back. -/
def archiveWorld (user : User) (job : BackupJob) (record : BackupId)
    (stateBefore : Option ServerState) : PanelCode BackupLocals BackupResult := do
  quiesce panel job
  let archive ← (ask "archive" job.at_
    (.createArchive job.ref s!"{job.server.slug}-{job.name}")).finally_ (resume job)
  assign fun locals => { locals with archive := some archive }
  let (kept, durationMs, uploadFailure) ← step "keep" (keepArchive job archive)
  await "record" (.updateBackup record
    { state := some .complete, sizeBytes := some archive.sizeBytes
      checksum := some archive.checksum, store := some kept, artifact := some archive.artifact
      durationMs := some durationMs })
  giveBack "back" stateBefore
  let notes := backupNotes job.nodeName uploadFailure archive.warnings
  let warned := !notes.isEmpty
  logEvent "logged" user.name "backup.created" job.name (if warned then .warning else .success)
  let where_ := match kept, job.offsite with
    | .s3, some offsite => s!"in {offsite.bucket}"
    | _, _ => s!"on {job.nodeName}"
  pure (.done (if warned then .warning else .success)
    (if uploadFailure.isSome then "Backup kept on the node" else "Backup complete")
    ("".intercalate ((s!"{job.name} · {gigabytes archive.sizeBytes} in " ++
      s!"{(durationMs + 500) / 1000}s, {where_}.") :: notes.map fun note => s!" {note}")),
    some record)

/-- Removes an archive nothing took ownership of: its name, when it is left on the node. -/
def removeLeft (job : BackupJob) (archive : Option ArchiveResult) :
    PanelCode BackupLocals (Option String) :=
  match archive with
  | some archive => do
    let gone ← (ask "remove" job.at_ (.removeArchive job.ref archive.artifact)).succeeded
    pure (if gone then none else some archive.artifact)
  | none => pure none

/-- What becomes of a backup that failed. -/
def backupFailed (user : User) (job : BackupJob) (record : BackupId)
    (stateBefore : Option ServerState) (failure : Failure) :
    PanelCode BackupLocals BackupResult := do
  let said := panel.withoutAgentAddress failure.message
  resume job
  let locals ← read
  let leftOnNode ← removeLeft job locals.archive
  await "failed" (.updateBackup record
    { state := some .failed, error := some said
      store := leftOnNode.map fun _ => .local_, artifact := leftOnNode })
  giveBack "back" stateBefore
  logEvent "logged" user.name "backup.failed" job.name .danger
  pure (.refuse "Backup failed" said, none)

/-- Everything of a backup that comes after the claim. -/
def backupClaimed (user : User) (job : BackupJob) (trigger : BackupTrigger)
    (stateBefore : Option ServerState) : PanelCode Locals BackupResult := do
  let record ← await "row" (.createBackup ⟨job.server.id, job.name, trigger⟩)
  fresh {} do
    match ← (step "try" (archiveWorld panel user job record stateBefore)).attempt with
    | .ok result => pure result
    | .error failure => step "catch" (backupFailed panel user job record stateBefore failure)

/-- Where the archive is to be kept: a scheduled one follows the storage setting. -/
def BackupOptions.place (options : BackupOptions) (trigger : BackupTrigger)
    (offsite : Option OffsiteTarget) : BackupStore :=
  options.store.getD
    (if trigger = .scheduled && offsite.any OffsiteTarget.scheduledOffsite then .s3 else .local_)

/-- What the archive is called, before the date. -/
def BackupOptions.start (options : BackupOptions) (trigger : BackupTrigger) : String :=
  options.named.getD (if trigger = .manual then "manual" else "auto")

/-- Takes a backup of the server. -/
def createBackupOp (user : User) (options : BackupOptions) : PanelCode Locals BackupResult := do
  match ← step "reach" (reachBackups panel user "server.backup.write") with
  | .not _ result => pure (result, none)
  | .here found at_ ref => do
    let trigger := options.trigger.getD .manual
    let name ← step "name" (freeName panel (options.start trigger))
    let offsite ← await "offsite" .offsiteTarget
    let store := options.place trigger offsite
    if store = .s3 ∧ offsite = none then
      pure (.refused "No off-site storage" "Configure a bucket on the Backups page first."
        (some .validationFailed) (some "store"), none)
    else do
      let dialect := (found.row.gameId.bind panel.findGame).map GameDefinition.console
      let job : BackupJob :=
        { server := found.row, nodeName := found.node.name, at_ := at_, ref := ref
          dialect := dialect, name := name, store := store, offsite := offsite
          skipQuiesce := options.skipQuiesce }
      if options.held then backupClaimed panel user job trigger none
      else do
        match ← claimServer panel .backup with
        | .busy sentence => pure (.refuse "Busy" sentence, none)
        | .taken stateBefore _ => backupClaimed panel user job trigger (some stateBefore)

end Geeboard.Panel
