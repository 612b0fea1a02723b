/-
This file takes the truth of the row from the part of an operation that holds the
server to the whole of it: an update, a rebuild and a rollback, from any state in
which the row tells the truth and with any outcome of every step.
-/

import Geeboard.Panel.BuildTruth

namespace Geeboard.Panel

open Effects Effects.Code

variable {Locals Result : Type} {panel : Workspace} {faults : interface.Site → Outcome}

section Ops

variable {before : World} {locals : Locals}

/-- The version an update goes to is one of the game's, and not the one the server is on. -/
theorem of_updateTarget {context : UpdateContext} {id : VersionId} {target : GameVersion}
    (allowed : updateTarget context id = .ok target) :
    findVersion context.game id = some target ∧
      currentVersion context.game context.found ≠ some target := by
  unfold updateTarget at allowed
  dsimp only at allowed
  split at allowed
  · cases allowed
  · rename_i version found
    rcases source : currentVersion context.game context.found with _ | current
    · have isTarget : version = target := by
        rw [source] at allowed
        grind
      rw [← isTarget]
      exact ⟨found, (fun same => nomatch same)⟩
    · have isTarget : version = target ∧ (current.id == version.id) = false := by
        rw [source] at allowed
        grind
      obtain ⟨rfl, different⟩ := isTarget
      refine ⟨found, fun same => ?_⟩
      cases same
      rw [beq_self_eq_true] at different
      cases different

/-- What an update to the version would write down is that version. -/
def UpdateResolves (panel : Workspace) (world : World) (targetVersionId : VersionId) : Prop :=
  ∀ row game target, world.server = some row → row.gameId.bind panel.findGame = some game →
    findVersion game targetVersionId = some target →
      wouldRecord panel world (catalogLink world game target <|> row.gameVersionId) target.label =
        some target

theorem updateResolves_iff {context : UpdateContext} {id : VersionId} {target : GameVersion}
    (reads : context.Of panel before) (found : findVersion context.game id = some target) :
    UpdateResolves panel before id ↔
      wouldRecord panel before
        (catalogLink before context.game target <|> context.found.row.gameVersionId) target.label =
          some target := by
  constructor
  · exact fun resolves => resolves _ _ _ reads.row reads.game found
  · intro resolves row game version there playable isTarget
    rw [reads.row] at there
    cases there
    rw [reads.game] at playable
    cases playable
    rw [found] at isTarget
    cases isTarget
    exact resolves

theorem quiet_claim (operation : Operation) :
    Makes LeavesBuild (claimServer panel operation : PanelCode Locals Claim) :=
  makes_mono (makes_claimServer panel operation) leaves_of_claim

/-- The backed-up part of an update. -/
theorem goes_updateBackedUp {user : User} {context : UpdateContext} {target : GameVersion}
    {running : Bool} {kept : (interface.Site → Prop) → Prop} (minds : Minds kept)
    (present : before.server.isSome) (tells : RowTells panel before) (numbered : Numbered before)
    (source : currentVersion context.game context.found = recorded panel before)
    (other : recorded panel before ≠ some target)
    (keeps : ∀ reached, kept reached ↔ UpdateKept faults reached
      (wouldRecord panel before
        (catalogLink before context.game target <|> context.found.row.gameVersionId)
        target.label = some target)) :
    Goes panel faults (updateBackedUp panel user context target running) locals before
      fun reached _ _ later => RowTells panel later ↔ kept reached := by
  refine minds.goes_quiet ["backing"] (fun _ => True)
    (begins_step (by decide) _) (by decide) (by decide)
    (makes_mono (makes_report _ _ _) leaves_of_progress) tells numbered ends_any
    fun _ _ reported sameReport _ tells numbered => ?_
  refine minds.goes_quiet ["backup"] (fun _ => True)
    (begins_step (by decide) _) (by decide) (by decide)
    (uses_step _ (makes_mono (makes_createBackupOp panel user _) leaves_of_backup)) tells numbered
    ends_any fun taken _ backedUp sameBackup _ tells numbered => ?_
  split
  · rename_i backupId
    refine minds.goes_quiet ["lock"] (fun _ => True)
      (begins_call (by decide) _) (by decide) (by decide) (uses_call _ trivial) tells numbered
      ends_any fun _ _ locked sameLock _ tells numbered => ?_
    refine minds.goes_quiet ["name"] (fun _ => True)
      (begins_call (by decide) _) (by decide) (by decide) (uses_call _ trivial) tells numbered
      ends_any fun backup _ named sameName _ tells numbered => ?_
    refine minds.goes_quiet ["claim"] (fun _ => True)
      (begins_step (by decide) _) (by decide) (by decide) (quiet_claim .update) tells numbered
      ends_any fun claim _ claimed sameClaim _ tells numbered => ?_
    have same := (((sameReport.trans sameBackup).trans sameLock).trans sameName).trans sameClaim
    split
    · refine minds.goes_end ["unlock", "end"]
        (begins_bind (begins_swallowed (begins_call (by decide) _)) fun _ =>
          begins_bind (begins_endProgress (by decide)) fun _ => begins_pure _) (by decide)
        (uses_bind (makes_swallowed (uses_call _ trivial)) fun _ =>
          uses_bind (makes_mono makes_endProgress leaves_of_progress) fun _ => uses_pure _)
        tells numbered
    · refine goes_mono (goes_updateClaimed user (same.present present) tells numbered
        (source.trans same.recorded.symm) (by rw [same.recorded]; exact other)) ?_
      intro reached result after later iff
      refine iff.trans ?_
      rw [same.wouldRecord, same.catalogLink]
      exact (keeps reached).symm
  · exact minds.goes_end ["end"]
      (begins_bind (begins_endProgress (by decide)) fun _ => begins_pure _) (by decide)
      (uses_bind (makes_mono makes_endProgress leaves_of_progress) fun _ => uses_pure _)
      tells numbered

/-- The reading at the beginning of each of them. -/
theorem ends_reached (user : User) (workloadOptional : Bool) :
    Ends panel faults (step "reach" (reachUpdate panel user workloadOptional)).attempt locals
      before fun result _ _ =>
        ∀ context, result = .ok (.ok context) → context.Of panel before := by
  refine ends_attempt (ends_step (ends_mono (ends_reachUpdate user workloadOptional _ _) ?_))
  intro result _ _ holds context same
  exact holds context (Except.ok.inj same)

theorem quiet_reach (user : User) (workloadOptional : Bool) :
    Makes LeavesBuild (Code.attempt (step "reach" (reachUpdate panel user workloadOptional)) :
      PanelCode Locals (Except Failure UpdateContext)) :=
  uses_attempt (uses_step _ (makes_reachUpdate panel user _ trivial))

theorem quiet_download (at_ : NodeId) (image : String) (key : Option String) :
    Makes LeavesBuild (step "download" (downloadFirst at_ image key) :
      PanelCode Locals (Option Failure)) :=
  uses_step _ (makes_downloadFirst _ _ _ leaves_of_progress trivial)

theorem goes_updateServerOp (user : User) (targetVersionId : VersionId) (key : Option String)
    (tells : RowTells panel before) (numbered : Numbered before) :
    Goes panel faults (updateServerOp panel user targetVersionId key) locals before
      fun reached _ _ later => RowTells panel later ↔
        UpdateKept faults reached (UpdateResolves panel before targetVersionId) := by
  have minds := @minds_updateKept faults (UpdateResolves panel before targetVersionId)
  refine minds.goes_quiet ["reach"] _ (begins_attempt (begins_step (by decide) _))
    (by decide) (by decide) (quiet_reach user false) tells numbered
    (ends_reached user false) fun result _ read sameRead reads tells numbered => ?_
  split
  · exact minds.goes_end [] (begins_pure _) (by decide) (uses_pure _) tells numbered
  · rename_i context
    have reads := reads context rfl
    split
    · exact minds.goes_end [] (begins_pure _) (by decide) (uses_pure _) tells numbered
    · rename_i target allowed
      obtain ⟨isTarget, other⟩ := of_updateTarget allowed
      refine minds.goes_quiet ["running"] (fun _ => True)
        (begins_wasRunning (by decide) _ _ _) (by decide) (by decide)
        (makes_mono (makes_wasRunning _ _ _) leaves_of_stop) tells numbered ends_any
        fun running _ seen sameSeen _ tells numbered => ?_
      refine minds.goes_quiet ["download"] (fun _ => True)
        (begins_step (by decide) _) (by decide) (by decide) (quiet_download _ _ _) tells numbered
        ends_any fun failed _ fetched sameFetched _ tells numbered => ?_
      split
      · exact minds.goes_end [] (begins_pure _) (by decide) (uses_pure _) tells
          numbered
      · have same := (sameRead.trans sameSeen).trans sameFetched
        have source := reads.currentVersion.trans same.recorded.symm
        refine goes_updateBackedUp minds (same.present ?_) tells numbered source
          (source ▸ other) fun reached => ?_
        · rw [reads.row]
          rfl
        · rw [updateResolves_iff reads isTarget, same.wouldRecord, same.catalogLink]

theorem goes_rebuildServerOp (user : User) (key : Option String) (tells : RowTells panel before)
    (numbered : Numbered before) :
    Goes panel faults (rebuildServerOp panel user key) locals before
      fun _ _ _ later => RowTells panel later ↔ True := by
  refine minds_nothing.goes_quiet ["reach"] _
    (begins_attempt (begins_step (by decide) _)) (by decide) (by decide) (quiet_reach user true)
    tells numbered (ends_reached user true) fun result _ read sameRead reads tells numbered => ?_
  split
  · exact minds_nothing.goes_end [] (begins_pure _) (by decide) (uses_pure _) tells
      numbered
  · rename_i context
    have reads := reads context rfl
    dsimp only
    split
    · exact minds_nothing.goes_end [] (begins_pure _) (by decide) (uses_pure _) tells
        numbered
    · rename_i version isVersion
      split
      · exact minds_nothing.goes_end [] (begins_pure _) (by decide) (uses_pure _)
          tells numbered
      · refine minds_nothing.goes_quiet ["running"] (fun _ => True)
          (begins_upOrMeantToBe (by decide) _) (by decide) (by decide)
          (makes_mono (makes_upOrMeantToBe _) leaves_of_stop) tells numbered ends_any
          fun start _ seen sameSeen _ tells numbered => ?_
        refine minds_nothing.goes_quiet ["download"] (fun _ => True)
          (begins_step (by decide) _) (by decide) (by decide) (quiet_download _ _ _) tells
          numbered ends_any fun failed _ fetched sameFetched _ tells numbered => ?_
        split
        · exact minds_nothing.goes_end [] (begins_pure _) (by decide) (uses_pure _)
            tells numbered
        · refine minds_nothing.goes_quiet ["claim"] (fun _ => True)
            (begins_step (by decide) _) (by decide) (by decide) (quiet_claim .rebuild) tells
            numbered ends_any fun claim _ claimed sameClaim _ tells numbered => ?_
          have same := ((sameRead.trans sameSeen).trans sameFetched).trans sameClaim
          have present : claimed.server.isSome :=
            same.present (by rw [reads.row]; rfl)
          have source : recorded panel claimed = some version :=
            same.recorded.trans (reads.currentVersion.symm.trans isVersion)
          split
          · exact minds_nothing.goes_end ["end"]
              (begins_bind (begins_endProgress (by decide)) fun _ => begins_pure _) (by decide)
              (uses_bind (makes_mono makes_endProgress leaves_of_progress) fun _ => uses_pure _)
              tells numbered
          · refine goes_fresh (goes_of_ends (ends_bind (ends_attempt (ends_step ?_))))
            refine ends_mono (ends_of_goes (goes_rebuildClaimed version present)) ?_
            rintro ended after rebuilt ⟨reached, ends⟩
            have truth : RowTells panel rebuilt := by
              cases ends with
              | untouched kept => exact tells.of_same numbered kept
              | nameless _ none => exact rowTells_of_nameless none
              | named kept names =>
                rw [rowTells_iff_of_names names, kept.recorded, source]
            have numberedThen := ends.numbered numbered
            cases ended with
            | ok done =>
              refine ends_mono (ends_sameBuild (uses_step _ ?_) _ _)
                fun _ _ _ kept => iff_of_true (truth.of_same numberedThen kept) trivial
              exact uses_bind (makes_mono makes_endProgress leaves_of_progress) fun _ =>
                uses_bind (uses_call _ ⟨rfl, rfl, rfl⟩) fun _ =>
                  uses_bind (uses_call _ trivial) fun _ => uses_pure _
            | error failure =>
              refine ends_mono (ends_sameBuild (uses_step _ ?_) _ _)
                fun _ _ _ kept => iff_of_true (truth.of_same numberedThen kept) trivial
              refine uses_bind (makes_mono makes_endProgress leaves_of_progress) fun _ =>
                uses_bind uses_read fun stopping => ?_
              split
              · exact uses_bind (uses_call _ ⟨rfl, rfl, rfl⟩) fun _ => uses_pure _
              · exact uses_bind (uses_call _ ⟨rfl, rfl, rfl⟩) fun _ =>
                  uses_bind (uses_call _ trivial) fun _ => uses_pure _

/-- What a rollback would write down is the version it goes back to. -/
def RollbackResolves (panel : Workspace) (world : World) : Prop :=
  ∀ row game label target, world.server = some row →
    row.gameId.bind panel.findGame = some game →
    row.rollbackVersionLabel = some label → rollbackTarget game row label = some target →
      wouldRecord panel world (catalogLink world game target) target.label = some target

/-- The row records the version a rollback goes back to already. -/
def RollbackAlready (panel : Workspace) (world : World) : Prop :=
  ∀ row game label target, world.server = some row →
    row.gameId.bind panel.findGame = some game →
    row.rollbackVersionLabel = some label → rollbackTarget game row label = some target →
      recorded panel world = some target

/-- The part of a rollback that holds the server. -/
theorem goes_rollbackJob {user : User} {context : UpdateContext} {backup : BackupRow}
    {artifact : String} {target : GameVersion} {running : Bool} {resolves already : Prop}
    (present : before.server.isSome) (tells : RowTells panel before) (numbered : Numbered before)
    (resolved : resolves ↔ wouldRecord panel before (catalogLink before context.game target)
      target.label = some target)
    (recordedNow : already ↔ recorded panel before = some target) :
    Goes panel faults (do
        match ← (step "try"
          (rollbackClaimed panel context backup artifact target running)).attempt with
        | .ok _ => step "record" (recordRollback user context backup target)
        | .error failure => step "catch" (rollbackFailed context.found.row failure)) locals before
      fun reached _ _ later =>
        RowTells panel later ↔ RollbackKept faults reached resolves already := by
  refine goes_bind (goes_attempt (goes_mono (goes_step (goes_rollbackClaimed present)) ?_))
  rintro trying (failure | _) afterTry tried ⟨awayTry, ends⟩
  · have quiet : Makes LeavesBuild (step "catch" (rollbackFailed context.found.row failure) :
        PanelCode Locals OpResult) :=
      uses_step _ (uses_bind (makes_mono makes_endProgress leaves_of_progress) fun _ =>
        uses_bind (uses_call _ ⟨rfl, rfl, rfl⟩) fun _ => uses_pure _)
    refine goes_mono (goes_of_begins (show StartsAt ["catch"] _ from begins_step (by decide) _)
      (ends_sameBuild quiet _ _)) ?_
    rintro catching result after later ⟨others, sameLater⟩
    have named : Took faults (fun site => trying site ∨ catching site) NAMED ↔
        Took faults trying NAMED := and_congr_left' (or_iff_left (others _ _ (by decide)))
    rw [rowTells_iff_of_same (ends.numbered numbered) sameLater, RollbackKept, named]
    cases ends with
    | untouched same _ notNamed =>
      exact iff_of_true (tells.of_same numbered same) fun took => absurd took notNamed
    | nameless _ none _ notNamed =>
      exact iff_of_true (rowTells_of_nameless none) fun took => absurd took notNamed
    | named same names _ took ended =>
      have notDone : (faults NAMED).fault ≠ .done := fun done => by
        rw [NAMED] at done
        rw [done] at ended
        cases ended
      rw [rowTells_iff_of_names names, same.recorded, ← recordedNow,
        if_neg fun both => notDone both.1]
      exact ⟨fun holds _ => holds, fun holds => holds took⟩
  · cases ends with
    | named same names _ took ended =>
      have done : (faults NAMED).fault = .done := beq_iff_eq.mp ended.symm
      refine goes_mono (goes_step (goes_of_ends
        (ends_recordRollback user context backup target _ (same.present present)))) ?_
      rintro recording result after later ⟨-, written⟩
      rw [written.rowTells_iff names, same.recorded, same.wouldRecord, same.catalogLink]
      have named : Took faults (fun site => trying site ∨ recording site) NAMED :=
        ⟨.inl took.1, took.2⟩
      rw [RollbackKept]
      cases wrote : Written fun site => faults ("record" :: site) with
      | true =>
        rw [if_pos ⟨done, rfl⟩, cond_true, ← resolved]
        exact ⟨fun holds _ => holds, fun holds => holds named⟩
      | false =>
        rw [if_neg fun both => Bool.false_ne_true both.2, cond_false, ← recordedNow]
        exact ⟨fun holds _ => holds, fun holds => holds named⟩

theorem goes_rollbackServerOp (user : User) (key : Option String) (tells : RowTells panel before)
    (numbered : Numbered before) :
    Goes panel faults (rollbackServerOp panel user key) locals before
      fun reached _ _ later => RowTells panel later ↔
        RollbackKept faults reached (RollbackResolves panel before)
          (RollbackAlready panel before) := by
  have minds := @minds_rollbackKept faults (RollbackResolves panel before)
    (RollbackAlready panel before)
  refine minds.goes_quiet ["reach"] _ (begins_attempt (begins_step (by decide) _))
    (by decide) (by decide) (quiet_reach user true) tells numbered
    (ends_reached user true) fun result _ read sameRead reads tells numbered => ?_
  split
  · exact minds.goes_end [] (begins_pure _) (by decide) (uses_pure _) tells numbered
  · rename_i context
    have reads := reads context rfl
    dsimp only
    split
    · rename_i label backupId labelled backed
      refine minds.goes_quiet ["backup"] (fun _ => True)
        (begins_call (by decide) _) (by decide) (by decide) (uses_call _ trivial) tells numbered
        ends_any fun found _ looked sameLooked _ tells numbered => ?_
      split
      · rename_i found artifact _
        split
        · exact minds.goes_end [] (begins_pure _) (by decide) (uses_pure _) tells
            numbered
        · rename_i target isTarget
          refine minds.goes_quiet ["running"] (fun _ => True)
            (begins_upOrMeantToBe (by decide) _) (by decide) (by decide)
            (makes_mono (makes_upOrMeantToBe _) leaves_of_stop) tells numbered ends_any
            fun running _ seen sameSeen _ tells numbered => ?_
          refine minds.goes_quiet ["download"] (fun _ => True)
            (begins_step (by decide) _) (by decide) (by decide) (quiet_download _ _ _) tells
            numbered ends_any fun failed _ fetched sameFetched _ tells numbered => ?_
          split
          · exact minds.goes_end [] (begins_pure _) (by decide) (uses_pure _) tells
              numbered
          · refine minds.goes_quiet ["claim"] (fun _ => True)
              (begins_step (by decide) _) (by decide) (by decide) (quiet_claim .rollback) tells
              numbered ends_any fun claim _ claimed sameClaim _ tells numbered => ?_
            have same := (((sameRead.trans sameLooked).trans sameSeen).trans sameFetched).trans
              sameClaim
            split
            · exact minds.goes_end [] (begins_pure _) (by decide) (uses_pure _) tells
                numbered
            · refine goes_rollbackJob (same.present (by rw [reads.row]; rfl)) tells numbered ?_ ?_
              · rw [same.wouldRecord, same.catalogLink]
                refine ⟨fun holds => holds _ _ _ _ reads.row reads.game labelled isTarget, ?_⟩
                intro holds row game said version there playable saidLabel isVersion
                rw [reads.row] at there
                cases there
                rw [reads.game] at playable
                cases playable
                rw [labelled] at saidLabel
                cases saidLabel
                rw [isTarget] at isVersion
                cases isVersion
                exact holds
              · rw [same.recorded]
                refine ⟨fun holds => holds _ _ _ _ reads.row reads.game labelled isTarget, ?_⟩
                intro holds row game said version there playable saidLabel isVersion
                rw [reads.row] at there
                cases there
                rw [reads.game] at playable
                cases playable
                rw [labelled] at saidLabel
                cases saidLabel
                rw [isTarget] at isVersion
                cases isVersion
                exact holds
      · exact minds.goes_end [] (begins_pure _) (by decide) (uses_pure _) tells
          numbered
    · exact minds.goes_end [] (begins_pure _) (by decide) (uses_pure _) tells numbered

end Ops

/-! ### The three operations -/

/-- The operations that give a server's workload another build. -/
inductive BuildOp where
  | update (targetVersionId : VersionId) (progressKey : Option String)
  | rebuild (progressKey : Option String)
  | rollback (progressKey : Option String)
  deriving DecidableEq, Repr

/-- The operation's code. -/
def BuildOp.code (panel : Workspace) (user : User) : BuildOp → PanelCode Unit OpResult
  | .update targetVersionId key => updateServerOp panel user targetVersionId key
  | .rebuild key => rebuildServerOp panel user key
  | .rollback key => rollbackServerOp panel user key

/-- When an operation leaves the row telling the truth: by the outcomes of the steps that write
the row, and by what the catalog links the version to. -/
def BuildOp.Keeps (panel : Workspace) (faults : interface.Site → Outcome) (user : User)
    (world : World) (op : BuildOp) : Prop :=
  let reached := fun site => Reaches panel faults site (op.code panel user) () world
  match op with
  | .update targetVersionId _ =>
    UpdateKept faults reached (UpdateResolves panel world targetVersionId)
  | .rebuild _ => True
  | .rollback _ =>
    RollbackKept faults reached (RollbackResolves panel world) (RollbackAlready panel world)

/-- From a row that tells the truth about its build, an update, a rebuild or a rollback with any
outcome of every step leaves a row that tells it just when its writes turned out so. -/
theorem row_names_its_build_iff (panel : Workspace) (user : User) (op : BuildOp)
    (faults : interface.Site → Outcome) (world : World) (tells : RowTells panel world)
    (numbered : Numbered world) :
    RowTells panel (ran panel faults (op.code panel user) () world).2 ↔
      op.Keeps panel faults user world := by
  cases op with
  | update targetVersionId key =>
    exact goes_updateServerOp user targetVersionId key tells numbered
  | rebuild key => exact goes_rebuildServerOp user key tells numbered
  | rollback key => exact goes_rollbackServerOp user key tells numbered

/-! ### A server to look at -/

namespace Sample

/-- A game with two versions of one line. -/
def older : GameVersion :=
  { id := "1.20", label := "1.20", upstream := some "1.20", image := "game:1.20" }

def newer : GameVersion :=
  { id := "1.21", label := "1.21", upstream := some "1.21", image := "game:1.21" }

def game : GameDefinition := { id := "game", name := "Game", versions := [older, newer] }

/-- A workspace with that game, in which everybody may do everything. -/
def workspace : Workspace where
  findGame := fun id => if id = "game" then some game else none
  may := fun _ _ _ => true
  instanceName := "panel:1"
  configFiles := fun _ _ _ => []
  agentRefusal := fun _ => none
  withoutAgentAddress := id
  dateStamp := fun _ => "2024-01-01"
  testPattern := fun _ _ => false

def user : User := ⟨"u", "User", true⟩

def row : ServerRow :=
  { id := "s", slug := "s", name := "Server", ownerId := some "u", gameId := some "game"
    version := "1.20", gameVersionId := some "c20", state := .stopped, nodeId := "n"
    host := "host", port := 25565, memoryLimit := 4, cpuLimit := 2, settings := []
    runtimeId := some 1, builtSpec := none, lastError := none, operation := none
    operationOwner := none, operationStartedAt := none, operationBeat := none
    stateBefore := none, updatedAt := 0, startedAt := none, readyAt := none
    healthDetail := none, playersOn := 0, cpuPct := 0, ramPct := 0, restartPolicy := .never
    restartAttempts := 0, maxRestarts := 3, lastRestartAt := none, installedBuildId := none
    rollbackVersionId := none, rollbackVersionLabel := none, rollbackBackupId := none
    rollbackAt := none, installKey := none, installStep := none, installMessage := none }

def nodeRow (id : NodeId) : NodeRow :=
  ⟨id, id, some "url", some "token", [], none, none⟩

def catalog : List CatalogVersion :=
  [⟨"c20", "game", "1.20", none⟩, ⟨"c21", "game", "1.21", none⟩]

def workload : Workload := ⟨1, ⟨"s", "s", game, older, 25565, 4, 2⟩, .stopped, false⟩

/-- The server stopped on its node, with its world there. -/
def world : World where
  server := some row
  backups := []
  nodeRows := [nodeRow "n", nodeRow "m"]
  catalog := catalog
  offsite := some ⟨"bucket", "", false⟩
  portsTaken := []
  nodes := fun at_ => if at_ = "n" then
      ⟨some ⟨[("level.dat", "1")], []⟩, some workload, fun _ => none⟩
    else ⟨none, none, fun _ => none⟩
  bucket := fun _ => none
  beats := []
  clock := 0
  nextBackup := 1
  nextRuntime := 2
  madeFrom := fun id => if id = 1 then some older else none

/-- Every step is done, but for the one at the site. -/
def failing (site : interface.Site) (fault : Fault) : interface.Site → Outcome :=
  fun other => if other = site then { fault := fault } else {}

end Sample

theorem Sample.rowTells : RowTells Sample.workspace Sample.world := by
  rintro id ⟨⟩
  exact ⟨Sample.older, by decide +kernel, by decide +kernel⟩

theorem Sample.numbered : Numbered Sample.world := by
  rintro id ⟨⟩
  decide

/-- The law is met by an update whose every step is done. -/
theorem row_names_its_build_iff_updated :
    RowTells Sample.workspace (ran Sample.workspace (fun _ => {})
      ((BuildOp.update "1.21" none).code Sample.workspace Sample.user) () Sample.world).2 ↔
      (BuildOp.update "1.21" none).Keeps Sample.workspace (fun _ => {}) Sample.user Sample.world :=
  row_names_its_build_iff Sample.workspace Sample.user (.update "1.21" none) (fun _ => {})
    Sample.world Sample.rowTells Sample.numbered

/-- An update whose lookup of the new version fails leaves a row that names the new workload and
records the old version. -/
theorem failed_lookup_leaves_old_version :
    RowTells Sample.workspace Sample.world ∧ Numbered Sample.world ∧
      ¬ RowTells Sample.workspace (ran Sample.workspace
        (Sample.failing ["record", "catalog"] .failed)
        ((BuildOp.update "1.21" none).code Sample.workspace Sample.user) () Sample.world).2 := by
  refine ⟨Sample.rowTells, Sample.numbered, fun tells => ?_⟩
  obtain ⟨version, made, records⟩ := tells 2 (by decide +kernel)
  have madeNewer : (ran Sample.workspace (Sample.failing ["record", "catalog"] .failed)
      ((BuildOp.update "1.21" none).code Sample.workspace Sample.user) ()
      Sample.world).2.madeFrom 2 = some Sample.newer := by decide +kernel
  have recordsOlder : recorded Sample.workspace (ran Sample.workspace
      (Sample.failing ["record", "catalog"] .failed)
      ((BuildOp.update "1.21" none).code Sample.workspace Sample.user) () Sample.world).2 =
        some Sample.older := by decide +kernel
  rw [madeNewer] at made
  rw [recordsOlder] at records
  cases made
  exact absurd records (by decide)

end Geeboard.Panel
