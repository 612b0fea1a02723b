/-
This file says which calls each piece of the panel's code can make, whatever the
answers are.

A footprint is the list of the calls a piece of code has in it. It is proved once
for each piece, by a walk through its code, and every result that only needs to
know what a piece leaves alone is read off the footprint.
-/

import Geeboard.Panel.Answers
import Geeboard.Panel.Updates

namespace Geeboard.Panel

open Effects Effects.Code

variable {Locals Result : Type} {allowed : Call → Prop}

/-! ### Progress and claims -/

/-- The calls that say how far an operation is. -/
inductive ProgressCall : Call → Prop
  | report (stage message : String) : ProgressCall (.updateServer
      { installStep := some (some stage), installMessage := some (some message) })
  | begin (key stage message : String) : ProgressCall (.updateServer
      { installKey := some (some key), installStep := some (some stage)
        installMessage := some (some message) })
  | clear : ProgressCall (.updateServer
      { installKey := some none, installStep := some none, installMessage := some none })
  | event (event : ActivityEvent) : ProgressCall (.createEvent event)

theorem makes_report (label stage message : String) :
    Makes ProgressCall (report label stage message : PanelCode Locals Unit) :=
  uses_step _ (uses_bind (makes_swallowed (uses_call _ (.report stage message))) fun _ =>
    makes_swallowed (uses_call _ (.event _)))

theorem makes_beginProgress (key : Option String) (stage message : String) :
    Makes ProgressCall (beginProgress key stage message : PanelCode Locals Unit) := by
  cases key with
  | none => exact uses_pure ()
  | some key => exact makes_swallowed (uses_call _ (.begin key stage message))

theorem makes_endProgress : Makes ProgressCall (endProgress : PanelCode Locals Unit) :=
  makes_swallowed (uses_call _ .clear)

/-- The calls of a claim. -/
inductive ClaimCall (operation : Operation) : Call → Prop
  | now : ClaimCall operation .now
  | take (owner : String) (since : Time) : ClaimCall operation (.claimServer operation owner since)
  | beat (since : Time) : ClaimCall operation (.startBeat since)
  | who : ClaimCall operation .findServer

theorem makes_claimServer (panel : Workspace) (operation : Operation) :
    Makes (ClaimCall operation) (claimServer panel operation : PanelCode Locals Claim) := by
  refine uses_step _ (uses_bind (uses_call _ .now) fun since => ?_)
  refine uses_bind (uses_call _ (.take _ _)) fun taken => ?_
  split
  · exact uses_bind (uses_call _ (.beat _)) fun _ => uses_pure _
  · refine uses_bind (uses_call _ .who) fun current => ?_
    split
    · exact uses_bind (uses_call _ .now) fun _ => uses_pure _
    · exact uses_pure _

/-! ### Stopping -/

/-- The calls of a stop of a server on its node. -/
inductive StopCall (at_ : NodeId) (ref : RuntimeRef) : Call → Prop
  | now : StopCall at_ ref .now
  | wait (ms : Time) : StopCall at_ ref (.wait ms)
  | status : StopCall at_ ref (.node at_ (.status ref))
  | command (line : String) : StopCall at_ ref (.node at_ (.sendCommand ref line))
  | stop (graceSeconds : Nat) : StopCall at_ ref (.node at_ (.stop ref graceSeconds))

theorem makes_lookUntilExited (at_ : NodeId) (ref : RuntimeRef) (deadline : Time) (looks : Nat) :
    Makes (StopCall at_ ref)
      (lookUntilExited at_ ref deadline looks : PanelCode Locals (Option RuntimeStatus)) := by
  induction looks with
  | zero => exact uses_pure none
  | succ looks inductionHypothesis =>
    refine uses_bind (uses_call _ .now) fun now => ?_
    split
    · refine uses_bind (uses_call _ (.wait _)) fun _ => ?_
      refine uses_bind (uses_attempt (uses_call _ .status)) fun looked => ?_
      split
      · split
        · exact uses_pure _
        · exact uses_step _ inductionHypothesis
      · exact uses_step _ inductionHypothesis
    · exact uses_pure none

theorem makes_waitToExit (at_ : NodeId) (ref : RuntimeRef) (graceSeconds : Nat) (told : Bool) :
    Makes (StopCall at_ ref)
      (waitToExit at_ ref graceSeconds told : PanelCode Locals (Option RuntimeStatus)) := by
  unfold waitToExit
  split
  · exact uses_bind (uses_call _ .now) fun now =>
      uses_step _ (makes_lookUntilExited at_ ref _ _)
  · exact uses_pure none

theorem makes_stopGracefully (at_ : NodeId) (ref : RuntimeRef) (dialect : Option ConsoleDialect)
    (graceSeconds : Nat) :
    Makes (StopCall at_ ref)
      (stopGracefully at_ ref dialect graceSeconds : PanelCode Locals RuntimeStatus) := by
  unfold stopGracefully
  split
  · exact uses_call _ (.stop _)
  · refine uses_bind (uses_succeeded (uses_call _ (.command _))) fun sent => ?_
    refine uses_bind (makes_waitToExit at_ ref _ sent) fun left => ?_
    split
    · exact uses_pure _
    · exact uses_call _ (.stop _)

theorem makes_wasRunning (at_ : NodeId) (ref : RuntimeRef) (server : ServerRow) :
    Makes (StopCall at_ ref) (wasRunning at_ ref server : PanelCode Locals Bool) := by
  refine uses_bind (uses_attempt (uses_call _ .status)) fun looked => ?_
  split
  · exact uses_pure _
  · exact uses_pure _

/-! ### Installing -/

/-- The calls of an install on a node. -/
inductive InstallCall (context : InstallContext) : Call → Prop
  | progress {call : Call} (progress : ProgressCall call) : InstallCall context call
  | fetch : InstallCall context
      (.node context.at_ (.fetchSource context.plan.version.image))
  | provision : InstallCall context (.node context.at_ (.provision context.plan))
  | read (ref : RuntimeRef) (path : String) :
      InstallCall context (.node context.at_ (.readFile ref path))
  | write (ref : RuntimeRef) (path content : String) :
      InstallCall context (.node context.at_ (.writeFile ref path content))
  | start (ref : RuntimeRef) (wanted : context.start = true) :
      InstallCall context (.node context.at_ (.start ref))
  | undo (id : Option RuntimeId) : InstallCall context
      (.node context.at_ (.destroy ⟨context.plan.serverId, id⟩ (!context.existingData)))

/-- The calls of the part of an install after the workload was made are allowed. -/
structure Settles (context : InstallContext) (allowed : Call → Prop) : Prop where
  progress : ∀ call, ProgressCall call → allowed call
  read : ∀ ref path, allowed (.node context.at_ (.readFile ref path))
  write : ∀ ref path content, allowed (.node context.at_ (.writeFile ref path content))
  start : ∀ ref, context.start = true → allowed (.node context.at_ (.start ref))

theorem settles_installCall (context : InstallContext) : Settles context (InstallCall context) :=
  ⟨fun _ => .progress, .read, .write, .start⟩

theorem makes_readExisting {context : InstallContext} (settles : Settles context allowed)
    (ref : RuntimeRef) (path : String) :
    Makes allowed (readExisting context.at_ ref path : PanelCode Locals String) := by
  refine uses_bind (uses_attempt (uses_call _ (settles.read _ _))) fun looked => ?_
  split
  · split
    · exact uses_throw _
    · exact uses_pure _
  · split
    · exact uses_pure _
    · exact uses_throw _

theorem makes_progress {context : InstallContext} {code : PanelCode Locals Result}
    (makes : Makes ProgressCall code) : Makes (InstallCall context) code :=
  fun locals => Program.uses_mono (fun _ => .progress) (makes locals)

theorem makes_writeConfigFiles {context : InstallContext} (settles : Settles context allowed)
    (ref : RuntimeRef) (files : List (String × (String → String))) :
    Makes allowed (writeConfigFiles context.at_ ref files : PanelCode Locals Nat) := by
  induction files with
  | nil => exact uses_pure 0
  | cons file files inductionHypothesis =>
    obtain ⟨path, patch⟩ := file
    refine uses_bind (makes_mono (makes_report _ _ _) settles.progress) fun _ => ?_
    refine uses_bind (makes_readExisting settles ref path) fun existing => ?_
    refine uses_bind (uses_call _ (settles.write _ _ _)) fun _ => ?_
    exact uses_bind (uses_step _ inductionHypothesis) fun _ => uses_pure _

theorem makes_installStep {stage : String} {code : PanelCode Locals Result}
    (makes : Makes allowed code) : Makes allowed (installStep stage code) := by
  refine uses_bind (uses_attempt makes) fun ended => ?_
  split
  · exact uses_pure _
  · exact uses_throw _

theorem makes_settleInstall {context : InstallContext} (settles : Settles context allowed)
    (ref : RuntimeRef) (provisioned : RuntimeStatus) :
    Makes allowed (settleInstall context ref provisioned : PanelCode Locals InstallResult) := by
  refine uses_bind (makes_installStep (uses_step _ (makes_writeConfigFiles settles ref _)))
    fun written => ?_
  split
  · rename_i wanted
    refine uses_bind (makes_installStep ?_) fun started => uses_pure _
    exact uses_bind (makes_mono (makes_report _ _ _) settles.progress) fun _ =>
      uses_call _ (settles.start _ wanted)
  · exact uses_pure _

theorem makes_installServer (context : InstallContext) :
    Makes (InstallCall context)
      (installServer context : PanelCode Locals InstallResult) := by
  refine uses_bind (makes_installStep ?_) fun _ => ?_
  · refine uses_bind (makes_progress (makes_report _ _ _)) fun _ => ?_
    unfold prepareInstall
    split
    · exact uses_pure ()
    · exact uses_pure ()
    · exact uses_throw _
  refine uses_bind (makes_installStep (uses_call _ .fetch)) fun _ => ?_
  refine uses_bind (makes_installStep ?_) fun provisioned => ?_
  · exact uses_bind (makes_progress (makes_report _ _ _)) fun _ => uses_call _ .provision
  refine uses_bind (uses_attempt (makes_settleInstall (settles_installCall context) _ _))
    fun settled => ?_
  split
  · exact uses_pure _
  · exact uses_bind (makes_swallowed (uses_call _ (.undo _))) fun _ => uses_throw _

/-! ### Rebuilding -/

theorem makes_allowedThere (server : ServerRow) (game : GameDefinition)
    (host : allowed (.findNodeById server.nodeId)) :
    Makes allowed (allowedThere server game : PanelCode Locals Unit) := by
  unfold allowedThere
  split
  · refine uses_bind (uses_call _ host) fun found => ?_
    split
    · exact uses_pure ()
    · exact uses_throw _
  · exact uses_pure ()

theorem makes_fetchUntouched (at_ : NodeId) (image : String)
    (fetch : allowed (.node at_ (.fetchSource image))) :
    Makes allowed (fetchUntouched at_ image : PanelCode Locals Unit) := by
  refine uses_bind (uses_attempt (uses_call _ fetch)) fun ended => ?_
  split
  · exact uses_pure ()
  · exact uses_throw _

theorem begins_allowedThere (server : ServerRow) (game : GameDefinition) :
    StartsAt ["host"]
      (allowedThere server game : PanelCode Locals Unit) := by
  unfold allowedThere
  split
  · refine begins_bind (begins_call (List.mem_singleton.mpr rfl) _) fun found => ?_
    split
    · exact begins_pure ()
    · exact begins_throw _
  · exact begins_pure ()

theorem begins_fetchUntouched (at_ : NodeId) (image : String) :
    StartsAt ["fetch"]
      (fetchUntouched at_ image : PanelCode Locals Unit) := by
  refine begins_bind (begins_attempt (begins_call (List.mem_singleton.mpr rfl) _)) fun ended => ?_
  split
  · exact begins_pure ()
  · exact begins_throw _

/-! ### Before an update -/

theorem makes_reachUpdate (panel : Workspace) (user : User) (workloadOptional : Bool)
    (find : allowed .findServer) :
    Makes allowed (reachUpdate panel user workloadOptional : PanelCode Locals UpdateContext) := by
  refine uses_bind (uses_call _ find) fun found => ?_
  split
  · exact uses_throw _
  · split
    · split
      · exact uses_throw _
      · split
        · exact uses_throw _
        · exact uses_throw _
        · split
          · exact uses_throw _
          · exact uses_pure _
    · exact uses_throw _

theorem makes_downloadFirst (at_ : NodeId) (image : String) (progressKey : Option String)
    (progress : ∀ call, ProgressCall call → allowed call)
    (fetch : allowed (.node at_ (.fetchSource image))) :
    Makes allowed
      (downloadFirst at_ image progressKey : PanelCode Locals (Option Failure)) := by
  refine uses_bind (makes_mono (makes_beginProgress _ _ _) progress) fun _ => ?_
  refine uses_bind (uses_attempt (uses_call _ fetch)) fun ended => ?_
  split
  · exact uses_pure _
  · exact uses_bind (makes_mono makes_endProgress progress) fun _ => uses_pure _

theorem makes_upOrMeantToBe (context : UpdateContext) :
    Makes (StopCall context.at_ context.ref)
      (upOrMeantToBe context : PanelCode Locals Bool) := by
  unfold upOrMeantToBe
  split
  · exact makes_wasRunning _ _ _
  · exact uses_pure _

theorem begins_swallowed {labels : List String} {code : PanelCode Locals Result}
    (begins : StartsAt labels code) :
    StartsAt labels (swallowed code) :=
  begins_bind (begins_attempt begins) fun _ => begins_pure ()

theorem begins_endProgress {labels : List String} (member : "end" ∈ labels) :
    StartsAt labels (endProgress : PanelCode Locals Unit) :=
  begins_swallowed (begins_call member _)

theorem begins_wasRunning {labels : List String} (member : "running" ∈ labels) (at_ : NodeId)
    (ref : RuntimeRef) (server : ServerRow) :
    StartsAt labels
      (wasRunning at_ ref server : PanelCode Locals Bool) := by
  refine begins_bind (begins_attempt (begins_call member _)) fun looked => ?_
  split
  · exact begins_pure _
  · exact begins_pure _

theorem begins_upOrMeantToBe {labels : List String} (member : "running" ∈ labels)
    (context : UpdateContext) :
    StartsAt labels (upOrMeantToBe context : PanelCode Locals Bool) := by
  unfold upOrMeantToBe
  split
  · exact begins_wasRunning member _ _ _
  · exact begins_pure _

/-! ### Backing up -/

/-- The calls of a backup. -/
inductive BackupCall : Call → Prop
  | find : BackupCall .findServer
  | now : BackupCall .now
  | wait (ms : Time) : BackupCall (.wait ms)
  | count (filter : BackupFilter) : BackupCall (.countBackups filter)
  | offsite : BackupCall .offsiteTarget
  | claim {call : Call} (claim : ClaimCall .backup call) : BackupCall call
  | row (data : NewBackup) : BackupCall (.createBackup data)
  | update (id : BackupId) (change : BackupChange) : BackupCall (.updateBackup id change)
  | back (state : ServerState) : BackupCall (.updateServer { state := some state })
  | event (event : ActivityEvent) : BackupCall (.createEvent event)
  | command (at_ : NodeId) (ref : RuntimeRef) (line : String) :
      BackupCall (.node at_ (.sendCommand ref line))
  | logs (at_ : NodeId) (ref : RuntimeRef) : BackupCall (.node at_ (.logs ref))
  | archive (at_ : NodeId) (ref : RuntimeRef) (name : String) :
      BackupCall (.node at_ (.createArchive ref name))
  | upload (at_ : NodeId) (ref : RuntimeRef) (artifact key : String) :
      BackupCall (.node at_ (.uploadArchive ref artifact key))
  | remove (at_ : NodeId) (ref : RuntimeRef) (artifact : String) :
      BackupCall (.node at_ (.removeArchive ref artifact))

section Backups

variable (panel : Workspace)

theorem makes_reachBackups (user : User) (need : String)
    (find : allowed .findServer) :
    Makes allowed (reachBackups panel user need : PanelCode Locals Reached) := by
  refine uses_bind (uses_call _ find) fun found => ?_
  split
  · exact uses_pure _
  · split
    · split
      · exact uses_pure _
      · exact uses_pure _
    · exact uses_pure _

theorem makes_freeName (start : String) :
    Makes BackupCall (freeName panel start : PanelCode Locals String) :=
  uses_bind (uses_call _ .now) fun _ =>
    uses_bind (uses_call _ (.count _)) fun _ => uses_pure _

theorem makes_resume (job : BackupJob) : Makes BackupCall (resume job) := by
  refine uses_step _ (uses_bind uses_read fun locals => ?_)
  split
  · exact uses_pure ()
  · refine uses_bind (uses_assign _) fun _ => ?_
    split
    · exact makes_swallowed (uses_call _ (.command _ _ _))
    · exact uses_pure ()

theorem makes_waitForSave (at_ : NodeId) (ref : RuntimeRef) (ready : SaveReady)
    (deadline : Time) (questions : Nat) :
    Makes BackupCall
      (waitForSave panel at_ ref ready deadline questions : PanelCode Locals Unit) := by
  induction questions with
  | zero => exact uses_pure ()
  | succ questions inductionHypothesis =>
    refine uses_bind (makes_swallowed (uses_call _ (.command _ _ _))) fun _ => ?_
    refine uses_bind (uses_call _ (.wait _)) fun _ => ?_
    refine uses_bind (uses_attempt (uses_call _ (.logs _ _))) fun lines => ?_
    refine uses_bind (uses_call _ .now) fun now => ?_
    split
    · exact uses_pure ()
    · split
      · exact uses_pure ()
      · exact uses_step _ inductionHypothesis

theorem makes_quiesce (job : BackupJob) : Makes BackupCall (quiesce panel job) := by
  refine uses_step _ ?_
  split
  · exact uses_pure ()
  · refine uses_whenever _ ?_
    refine uses_bind (uses_succeeded (uses_call _ (.command _ _ _))) fun sent => ?_
    refine uses_bind (uses_assign _) fun _ => ?_
    split
    · refine uses_bind (uses_call _ .now) fun now => ?_
      refine uses_bind (uses_call _ (.wait _)) fun _ => ?_
      exact uses_step _ (makes_waitForSave panel _ _ _ _ _)
    · exact uses_call _ (.wait _)

theorem makes_sendArchive (job : BackupJob) (archive : ArchiveResult) (key : String) :
    Makes BackupCall (sendArchive job archive key) := by
  refine uses_bind (uses_call _ (.upload _ _ _ _)) fun sent => ?_
  split
  · exact uses_pure _
  · exact uses_throw _

theorem makes_keepArchive (job : BackupJob) (archive : ArchiveResult) :
    Makes BackupCall (keepArchive job archive) := by
  unfold keepArchive
  split
  · refine uses_bind ?_ fun sent => ?_
    · refine uses_bind (uses_attempt (uses_step _ (makes_sendArchive _ _ _))) fun first => ?_
      split
      · exact uses_pure _
      · exact uses_attempt (uses_step _ (makes_sendArchive _ _ _))
    · split
      · exact uses_bind (makes_swallowed (uses_call _ (.remove _ _ _))) fun _ => uses_pure _
      · exact uses_pure _
  · exact uses_pure _

theorem makes_giveBack (label : String) (stateBefore : Option ServerState) :
    Makes BackupCall (giveBack label stateBefore : PanelCode Locals Unit) := by
  cases stateBefore with
  | none => exact uses_pure ()
  | some state => exact uses_call _ (.back state)

theorem makes_archiveWorld (user : User) (job : BackupJob) (record : BackupId)
    (stateBefore : Option ServerState) :
    Makes BackupCall (archiveWorld panel user job record stateBefore) := by
  refine uses_bind (makes_quiesce panel job) fun _ => ?_
  refine uses_bind (uses_finally (uses_call _ (.archive _ _ _)) (makes_resume job))
    fun archive => ?_
  refine uses_bind (uses_assign _) fun _ => ?_
  refine uses_bind (uses_step _ (makes_keepArchive job archive)) fun kept => ?_
  refine uses_bind (uses_call _ (.update _ _)) fun _ => ?_
  refine uses_bind (makes_giveBack _ _) fun _ => ?_
  exact uses_bind (uses_call _ (.event _)) fun _ => uses_pure _

theorem makes_removeLeft (job : BackupJob) (archive : Option ArchiveResult) :
    Makes BackupCall (removeLeft job archive) := by
  cases archive with
  | none => exact uses_pure none
  | some archive =>
    exact uses_bind (uses_succeeded (uses_call _ (.remove _ _ _))) fun _ => uses_pure _

theorem makes_backupFailed (user : User) (job : BackupJob) (record : BackupId)
    (stateBefore : Option ServerState) (failure : Failure) :
    Makes BackupCall (backupFailed panel user job record stateBefore failure) := by
  refine uses_bind (makes_resume job) fun _ => ?_
  refine uses_bind uses_read fun locals => ?_
  refine uses_bind (makes_removeLeft job _) fun left => ?_
  refine uses_bind (uses_call _ (.update _ _)) fun _ => ?_
  refine uses_bind (makes_giveBack _ _) fun _ => ?_
  exact uses_bind (uses_call _ (.event _)) fun _ => uses_pure _

theorem makes_backupClaimed (user : User) (job : BackupJob) (trigger : BackupTrigger)
    (stateBefore : Option ServerState) :
    Makes BackupCall
      (backupClaimed panel user job trigger stateBefore : PanelCode Locals BackupResult) := by
  refine uses_bind (uses_call _ (.row _)) fun record => uses_fresh _ ?_
  refine uses_bind (uses_attempt (uses_step _ (makes_archiveWorld panel _ _ _ _)))
    fun archived => ?_
  split
  · exact uses_pure _
  · exact uses_step _ (makes_backupFailed panel _ _ _ _ _)

theorem makes_createBackupOp (user : User) (options : BackupOptions) :
    Makes BackupCall (createBackupOp panel user options : PanelCode Locals BackupResult) := by
  refine uses_bind (uses_step _ (makes_reachBackups panel user _ .find)) fun reached => ?_
  split
  · exact uses_pure _
  · refine uses_bind (uses_step _ (makes_freeName panel _)) fun name => ?_
    refine uses_bind (uses_call _ .offsite) fun offsite => ?_
    dsimp only
    split
    · exact uses_pure _
    · split
      · exact makes_backupClaimed panel _ _ _ _
      · refine uses_bind (uses_mono_claim (makes_claimServer panel _)) fun claim => ?_
        split
        · exact uses_pure _
        · exact makes_backupClaimed panel _ _ _ _
where
  uses_mono_claim {code : PanelCode Locals Claim} (makes : Makes (ClaimCall .backup) code) :
      Makes BackupCall code := fun locals => Program.uses_mono (fun _ => .claim) (makes locals)

end Backups

end Geeboard.Panel
