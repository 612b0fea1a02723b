/-
This file is about what an update, a rebuild and a rollback say of the build they
leave behind.

Each of the three rebuilds the workload in the middle and leaves the row and the
workload alone before. What it does afterwards is what tells them apart: an update
and a rollback write the version down by a statement of its own, and an update
whose rebuild failed rebuilds around the version before.
-/

import Geeboard.Panel.Rebuilds

namespace Geeboard.Panel

open Effects Effects.Code Option

variable {Locals Result : Type} {panel : Workspace} {faults : interface.Site → Outcome}

/-! ### What a run has read -/

/-- The server, its game and its node's agent are those of the world. -/
structure UpdateContext.Of (panel : Workspace) (context : UpdateContext) (world : World) :
    Prop where
  row : world.server = some context.found.row
  game : context.found.row.gameId.bind panel.findGame = some context.game
  slug : context.found.versionSlug = world.slugOf context.found.row
  at_ : context.at_ = context.found.row.nodeId
  ref : context.ref = refFor context.found.row

theorem found_of {world : World} {found : FoundServer} (isFound : world.found = some found) :
    world.server = some found.row ∧ found.versionSlug = world.slugOf found.row ∧
      found.node.id = found.row.nodeId := by
  unfold World.found at isFound
  simp only [bind_eq_bind, bind_eq_some_iff] at isFound
  obtain ⟨row, there, node, node?, same⟩ := isFound
  cases same
  exact ⟨there, rfl, by simpa using List.find?_some node?⟩

theorem runtimeFor_eq {node : NodeRow} {at_ : NodeId} (attached : runtimeFor node = some at_) :
    at_ = node.id := by
  unfold runtimeFor at attached
  split at attached
  · exact (some.inj attached).symm
  · cases attached

/-- Reading the server reads the world's. -/
theorem found_of_answer {outcome : Outcome} {world : World} {found : Option FoundServer}
    (answered : (answer panel.findGame outcome .findServer world).1 = .ok found) :
    found = world.found := by
  obtain ⟨failure, said⟩ | ⟨reply, after, performed, ⟨said, -⟩ | ⟨failure, said, -⟩⟩ :=
    @answer_cases panel.findGame outcome .findServer world
  · rw [said] at answered
    cases answered
  · rw [said] at answered
    cases answered
    cases performed
    unfold World.found World.slugOf
    simp only [server_later, nodeRows_later, catalog_later]
  · rw [said] at answered
    cases answered

theorem ends_reachUpdate (user : User) (workloadOptional : Bool) (locals : Locals)
    (world : World) :
    Ends panel faults (reachUpdate panel user workloadOptional) locals world
      fun result _ _ => ∀ context, result = .ok context → context.Of panel world := by
  have thrown : ∀ failure : Failure, ∀ context : UpdateContext,
      (.error failure : Except Failure UpdateContext) = .ok context → context.Of panel world :=
    fun failure context same => nomatch same
  refine ends_bind (ends_call ?_)
  split
  · rename_i found answered
    have isFound := found_of_answer answered
    split
    · exact ends_throw (thrown _)
    · rename_i server
      obtain ⟨row, slug, node⟩ := found_of isFound.symm
      split
      · split
        · exact ends_throw (thrown _)
        · rename_i game playable
          split
          · exact ends_throw (thrown _)
          · exact ends_throw (thrown _)
          · rename_i at_ attached _
            split
            · exact ends_throw (thrown _)
            · refine ends_pure ?_
              rintro _ ⟨⟩
              exact ⟨row, playable, slug, (runtimeFor_eq attached).trans node, rfl⟩
      · exact ends_throw (thrown _)
  · exact thrown _

/-- The version an update starts from is the one the row records. -/
theorem UpdateContext.Of.currentVersion {context : UpdateContext} {world : World}
    (reads : context.Of panel world) :
    currentVersion context.game context.found = recorded panel world := by
  unfold Panel.currentVersion recorded
  rw [reads.row, reads.slug]
  simp only [bind_eq_bind, bind_some, reads.game]

/-! ### Writing a version down -/

/-- The version a row with this link and this label would record. -/
def wouldRecord (panel : Workspace) (world : World) (link : Option String) (label : String) :
    Option GameVersion := do
  let row ← world.server
  let game ← row.gameId.bind panel.findGame
  versionOfServer game (world.slugOf { row with gameVersionId := link }) label

/-- The link into the catalog that a lookup finds for a version. -/
def catalogLink (world : World) (game : GameDefinition) (version : GameVersion) :
    Option String :=
  (world.catalog.find? fun entry => entry.gameId == game.id && entry.slug == version.id).map
    CatalogVersion.id

theorem SameLabel.wouldRecord {before after : World} (same : SameLabel before after)
    (link : Option String) (label : String) :
    wouldRecord panel after link label = wouldRecord panel before link label := by
  have labels := same.label
  unfold World.label at labels
  unfold Panel.wouldRecord World.slugOf
  rw [same.catalog]
  rcases there : before.server with _ | row
  · rw [there, map_none, map_eq_none_iff] at labels
    rw [labels]
  · rw [there, map_some, map_eq_some_iff] at labels
    obtain ⟨other, thereToo, columns⟩ := labels
    rw [thereToo]
    simp only [Prod.mk.injEq] at columns
    simp only [bind_eq_bind, bind_some, columns.1]

theorem SameLabel.catalogLink {before after : World} (same : SameLabel before after)
    (game : GameDefinition) (version : GameVersion) :
    catalogLink after game version = catalogLink before game version := by
  unfold Panel.catalogLink
  rw [same.catalog]

/-- A write of a version records what its label and its link say, when it takes effect. -/
theorem answer_recordVersion {world : World} (present : world.server.isSome) (outcome : Outcome)
    {change : ServerChange} {label : String} {link : Option String}
    (sameNode : change.nodeId = none) (samePort : change.port = none)
    (sameRuntime : change.runtimeId = none) (version : change.version = some label)
    (linked : change.gameVersionId = some link) :
    (answer panel.findGame outcome (.updateServer change) world).2.runtimeId = world.runtimeId ∧
      recorded panel (answer panel.findGame outcome (.updateServer change) world).2 =
        if outcome.takesEffect then wouldRecord panel world link label
        else recorded panel world := by
  obtain ⟨row, there⟩ := isSome_iff_exists.mp present
  rw [answer_updateServer there outcome sameNode samePort]
  cases outcome.takesEffect with
  | false =>
    unfold recorded World.slugOf
    simp [World.runtimeId]
  | true =>
    unfold recorded wouldRecord World.slugOf
    simp [World.runtimeId, there, ServerRow.apply, sameRuntime, version, linked]

/-- The lookup of a version in the catalog. -/
theorem answer_findCatalogVersion (outcome : Outcome) (gameId : GameId) (slug : VersionId)
    (world : World) :
    (answer panel.findGame outcome (.findCatalogVersion gameId slug) world).1 =
      if outcome.fault = .done then
        .ok (world.catalog.find? fun entry => entry.gameId == gameId && entry.slug == slug)
      else .error outcome.failure := by
  unfold answer
  cases fault : outcome.fault with
  | done | failed | doneThenFailed => rfl

/-- What writing a version down leaves: the workload that was named, and the version it says when
the write took effect. -/
structure VersionEnd (panel : Workspace) (before : World) (written : Bool)
    (told : Option GameVersion) (later : World) : Prop where
  runtimeId : later.runtimeId = before.runtimeId
  numbers : Numbers before later
  recorded : recorded panel later = bif written then told else Panel.recorded panel before

theorem VersionEnd.of_same {before later : World} (same : SameBuild before later)
    (told : Option GameVersion) : VersionEnd panel before false told later :=
  ⟨same.runtimeId, same.numbers, same.recorded⟩

/-- What leaves the build alone may come before. -/
theorem VersionEnd.after {before middle later : World} {written : Bool}
    {told : Option GameVersion} (same : SameBuild before middle)
    (ends : VersionEnd panel middle written told later) :
    VersionEnd panel before written told later := by
  refine ⟨ends.runtimeId.trans same.runtimeId, same.numbers.trans ends.numbers, ?_⟩
  rw [ends.recorded, same.recorded]

/-- A write of a version, followed by what leaves the build alone. -/
theorem ends_version {rest : Unit → PanelCode Locals Result} {change : ServerChange}
    {label : String} {link : Option String} {locals : Locals} {world : World}
    (present : world.server.isSome) (quiet : ∀ done, Makes LeavesBuild (rest done))
    (sameNode : change.nodeId = none) (samePort : change.port = none)
    (sameRuntime : change.runtimeId = none) (version : change.version = some label)
    (linked : change.gameVersionId = some link) :
    Ends panel faults (await "version" (.updateServer change) >>= rest) locals world
      fun _ _ later => VersionEnd panel world (faults ["version"]).takesEffect
        (wouldRecord panel world link label) later := by
  obtain ⟨runtimeId, records⟩ := @answer_recordVersion panel _ present (faults ["version"])
    _ _ _ sameNode samePort sameRuntime version linked
  have numbers := @answer_numbers panel.findGame (faults ["version"])
    (.updateServer change) world
  have written : VersionEnd panel world (faults ["version"]).takesEffect
      (wouldRecord panel world link label)
      (answer panel.findGame (faults ["version"]) (.updateServer change) world).2 := by
    refine ⟨runtimeId, numbers, ?_⟩
    rw [records, Bool.cond_eq_ite]
  refine ends_bind (ends_call ?_)
  split
  · refine ends_mono (ends_sameBuild (quiet _) _ _) fun _ _ later same => ?_
    refine ⟨same.runtimeId.trans written.runtimeId, written.numbers.trans same.numbers, ?_⟩
    rw [same.recorded, written.recorded]
  · exact written

/-- The steps that write a version down: the lookup in the catalog and the write itself. -/
def Written (faults : interface.Site → Outcome) : Bool :=
  (faults ["catalog"]).fault == .done && (faults ["version"]).takesEffect

/-- Saying that an operation is over never fails, and leaves the build alone. -/
theorem ends_endProgress (locals : Locals) (world : World) :
    Ends panel faults (endProgress : PanelCode Locals Unit) locals world
      fun result _ later => result = .ok () ∧ SameBuild world later :=
  ends_swallowed (ends_mono (ends_sameBuild (uses_call _ (leaves_of_progress _ .clear)) _ _)
    fun _ _ _ same => ⟨rfl, same⟩)

/-- The lookup in the catalog and what follows it. -/
theorem ends_lookup {rest : Option CatalogVersion → PanelCode Locals Result}
    {game : GameDefinition} {version : GameVersion} {locals : Locals} {world : World}
    {told : Option GameVersion}
    (next : ∀ entry later, SameBuild world later →
      entry.map CatalogVersion.id = catalogLink world game version →
      Ends panel faults (rest entry) locals later fun _ _ last =>
        VersionEnd panel later (faults ["version"]).takesEffect told last) :
    Ends panel faults (await "catalog" (.findCatalogVersion game.id version.id) >>= rest) locals
      world fun _ _ last => VersionEnd panel world (Written faults) told last := by
  have said := @answer_findCatalogVersion panel (faults ["catalog"]) game.id version.id
    world
  have same := @sameBuild_answer panel.findGame (faults ["catalog"])
    (.findCatalogVersion game.id version.id) world trivial
  refine ends_bind (ends_call ?_)
  rw [said]
  by_cases done : (faults ["catalog"]).fault = .done
  · have written : Written faults = (faults ["version"]).takesEffect := by
      rw [Written, done]
      exact Bool.true_and _
    rw [if_pos done, written]
    exact ends_mono (next _ _ same rfl) fun _ _ _ ends => ends.after same
  · have written : Written faults = false := by
      rw [Written, beq_false_of_ne done]
      exact Bool.false_and _
    rw [if_neg done, written]
    exact .of_same same told

/-- The version an update writes down, when it writes one. -/
theorem ends_recordUpdate (user : User) (job : UpdateJob) (locals : Locals) {world : World}
    (present : world.server.isSome) :
    Ends panel faults (recordUpdate user job) locals world fun _ _ later =>
      VersionEnd panel world (Written faults) (wouldRecord panel world
        (catalogLink world job.context.game job.target <|> job.server.gameVersionId)
        job.target.label) later := by
  refine ends_bind (ends_mono (ends_endProgress _ _) ?_)
  rintro _ after ended ⟨rfl, same⟩
  rw [← same.catalogLink, ← same.wouldRecord]
  refine ends_mono (ends_lookup fun entry looked sameLooked link => ?_)
    fun _ _ _ ends => ends.after same
  refine ends_bind (ends_call ?_)
  have sameNow := @sameBuild_answer panel.findGame (faults ["now"]) .now looked trivial
  have kept := sameLooked.trans sameNow
  rw [← link, ← kept.wouldRecord]
  refine ends_mono (ends_version ((same.trans kept).present present) (fun _ => ?_) rfl rfl rfl rfl
    rfl) fun _ _ _ ends => ends.after sameNow
  exact uses_bind (uses_call _ trivial) fun _ => uses_pure _

/-- The version a rollback writes down, when it writes one. -/
theorem ends_recordRollback (user : User) (context : UpdateContext) (backup : BackupRow)
    (target : GameVersion) (locals : Locals) {world : World} (present : world.server.isSome) :
    Ends panel faults (recordRollback user context backup target) locals world fun _ _ later =>
      VersionEnd panel world (Written faults)
        (wouldRecord panel world (catalogLink world context.game target) target.label) later := by
  refine ends_bind (ends_mono (ends_endProgress _ _) ?_)
  rintro _ after ended ⟨rfl, same⟩
  rw [← same.catalogLink, ← same.wouldRecord]
  refine ends_mono (ends_lookup fun entry looked sameLooked link => ?_)
    fun _ _ _ ends => ends.after same
  rw [← link, ← sameLooked.wouldRecord]
  refine ends_version ((same.trans sameLooked).present present) (fun _ => ?_) rfl rfl rfl rfl rfl
  exact uses_bind (uses_call _ trivial) fun _ =>
    uses_bind (uses_call _ trivial) fun _ => uses_pure _

/-- With the workload made from the version, the row tells the truth just when it records that
version. -/
theorem VersionEnd.rowTells_iff {before later : World} {written : Bool}
    {told : Option GameVersion} {version : GameVersion} (names : Names before version)
    (ends : VersionEnd panel before written told later) :
    RowTells panel later ↔
      (bif written then told else Panel.recorded panel before) = some version := by
  obtain ⟨id, named, made⟩ := names
  have stillNames : Names later version :=
    ⟨id, ends.runtimeId.trans named, made.of_numbers ends.numbers⟩
  rw [rowTells_iff_of_names stillNames, ends.recorded]

/-! ### The rebuild inside each of them -/

section Inside

variable {version : GameVersion} {before : World} {locals : Locals}

/-- The sites of the step `label`, without the label. -/
def inside (label : String) (reached : interface.Site → Prop) : interface.Site → Prop :=
  fun tail => reached (label :: tail)

/-- Before the rebuild may come what leaves the build alone. -/
theorem RebuildEnd.goes_quiet {First : Type} (labels : List String)
    {first : PanelCode Locals First} {rest : First → PanelCode Locals Unit}
    (begins : StartsAt labels first) (away : "rebuild" ∉ labels)
    (quiet : Makes LeavesBuild first)
    (next : ∀ result after later, SameBuild before later →
      Goes panel faults (rest result) after later fun reached ended _ last =>
        RebuildEnd version (fun site => faults ("rebuild" :: site)) later
          (inside "rebuild" reached) ended last) :
    Goes panel faults (first >>= rest) locals before fun reached ended _ last =>
      RebuildEnd version (fun site => faults ("rebuild" :: site)) before
        (inside "rebuild" reached) ended last := by
  refine goes_bind (goes_mono (goes_of_begins begins (ends_sameBuild quiet _ _)) ?_)
  rintro earlier (failure | result) after later ⟨others, same⟩
  · exact .untouched same (fun took => others _ _ away took.1) fun took => others _ _ away took.1
  · exact goes_mono (next result after later same) fun _ _ _ _ ends =>
      ends.after same (others _ _ away) (others _ _ away)

theorem goes_stepRebuild {server : ServerRow} {game : GameDefinition} {at_ : NodeId}
    {ref : RuntimeRef} {start proveItStarts : Bool} (present : before.server.isSome) :
    Goes panel faults
      (step "rebuild" (rebuildWorkload panel server game version at_ ref start proveItStarts))
      locals before fun reached ended _ last =>
        RebuildEnd version (fun site => faults ("rebuild" :: site)) before
          (inside "rebuild" reached) ended last :=
  goes_mono (goes_step (goes_rebuildWorkload present)) fun _ _ _ _ ends => ends.2

theorem goes_replaceBuild (job : UpdateJob) (present : before.server.isSome) :
    Goes panel faults (replaceBuild panel job) locals before fun reached ended _ last =>
      RebuildEnd job.target (fun site => faults ("rebuild" :: site)) before
        (inside "rebuild" reached) ended last := by
  refine RebuildEnd.goes_quiet ["stopping", "stop"] (begins_whenever _ ?_) (by decide)
    (uses_whenever _ ?_) fun _ _ later same => goes_stepRebuild (same.present present)
  · exact begins_bind (begins_step (by decide) _) fun _ =>
      begins_bind (begins_step (by decide) _) fun _ => begins_pure _
  · exact uses_bind (makes_mono (makes_report _ _ _) leaves_of_progress) fun _ =>
      uses_bind (uses_step _ (makes_mono (makes_stopGracefully _ _ _ _) leaves_of_stop)) fun _ =>
        uses_pure _

end Inside

end Geeboard.Panel
