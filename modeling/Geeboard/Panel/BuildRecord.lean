/-
This file is about the two things a server's row says of its build: the version it
records and the workload it names.

A workload keeps what it was made from, and its number is never given out again.
So the row can only come apart from the build when a write names another workload
or records another version, and there are few such writes: a rebuild takes the
name out of the row and puts the new one in, and an update and a rollback record
the version afterwards. Everything else leaves both alone.
-/

import Geeboard.Panel.Footprints

namespace Geeboard.Panel

open Effects Effects.Code Option

variable {Locals Result : Type}

/-! ### What the row says -/

/-- The columns a server's version is read from. -/
def World.label (world : World) : Option (Option GameId × String × Option String) :=
  world.server.map fun row => (row.gameId, row.version, row.gameVersionId)

/-- The workload the row names. -/
def World.runtimeId (world : World) : Option RuntimeId := world.server.bind ServerRow.runtimeId

/-- The version the row records: by its link into the catalog, or by its label. -/
def recorded (panel : Workspace) (world : World) : Option GameVersion := do
  let row ← world.server
  let game ← row.gameId.bind panel.findGame
  versionOfServer game (world.slugOf row) row.version

/-- The workload of that number has been made, and from the version. -/
def Made (world : World) (id : RuntimeId) (version : GameVersion) : Prop :=
  world.madeFrom id = some version ∧ id < world.nextRuntime

/-- The workload the row names was made from the version. -/
def Names (world : World) (version : GameVersion) : Prop :=
  ∃ id, world.runtimeId = some id ∧ Made world id version

/-- When the row names a workload, it records the version that workload was made from. -/
def RowTells (panel : Workspace) (world : World) : Prop :=
  ∀ id, world.runtimeId = some id →
    ∃ version, world.madeFrom id = some version ∧ recorded panel world = some version

/-- The number of the workload the row names was given out before. -/
def Numbered (world : World) : Prop :=
  ∀ id, world.runtimeId = some id → id < world.nextRuntime

/-- Nothing that says which version the server is on has changed. -/
structure SameLabel (before after : World) : Prop where
  label : after.label = before.label
  catalog : after.catalog = before.catalog
  numbers : Numbers before after

/-- Nor has the workload the row names. -/
structure SameBuild (before after : World) : Prop extends SameLabel before after where
  runtimeId : after.runtimeId = before.runtimeId

theorem SameLabel.trans {first second third : World} (one : SameLabel first second)
    (other : SameLabel second third) : SameLabel first third :=
  ⟨other.label.trans one.label, other.catalog.trans one.catalog, one.numbers.trans other.numbers⟩

theorem SameBuild.refl (world : World) : SameBuild world world :=
  ⟨⟨rfl, rfl, Numbers.refl world⟩, rfl⟩

theorem SameBuild.trans {first second third : World} (one : SameBuild first second)
    (other : SameBuild second third) : SameBuild first third :=
  ⟨one.toSameLabel.trans other.toSameLabel, other.runtimeId.trans one.runtimeId⟩

variable {before after : World}

theorem SameLabel.recorded {panel : Workspace} (same : SameLabel before after) :
    recorded panel after = recorded panel before := by
  have labels := same.label
  unfold World.label at labels
  unfold Panel.recorded World.slugOf
  rw [same.catalog]
  rcases there : before.server with _ | row
  · rw [there, map_none, map_eq_none_iff] at labels
    rw [labels]
  · rw [there, map_some, map_eq_some_iff] at labels
    obtain ⟨other, thereToo, columns⟩ := labels
    rw [thereToo]
    simp only [Prod.mk.injEq] at columns
    simp only [bind_eq_bind, bind_some, columns.1, columns.2.1, columns.2.2]

theorem SameLabel.present (same : SameLabel before after) (present : before.server.isSome) :
    after.server.isSome := by
  have labels := congrArg Option.isSome same.label
  rwa [World.label, World.label, isSome_map, isSome_map, present] at labels

theorem RowTells.of_same {panel : Workspace} (tells : RowTells panel before)
    (numbered : Numbered before) (same : SameBuild before after) : RowTells panel after := by
  intro id named
  rw [same.runtimeId] at named
  obtain ⟨version, made, records⟩ := tells id named
  exact ⟨version, (same.numbers.made id (numbered id named)).trans made,
    same.recorded.trans records⟩

theorem rowTells_of_nameless {panel : Workspace} {world : World}
    (nameless : world.runtimeId = none) : RowTells panel world := by
  intro id named
  rw [nameless] at named
  cases named

theorem rowTells_iff_of_names {panel : Workspace} {world : World} {version : GameVersion}
    (names : Names world version) :
    RowTells panel world ↔ recorded panel world = some version := by
  obtain ⟨id, named, made, -⟩ := names
  constructor
  · intro tells
    obtain ⟨other, madeOther, records⟩ := tells id named
    rw [made] at madeOther
    cases madeOther
    exact records
  · intro records other namedOther
    rw [named] at namedOther
    cases namedOther
    exact ⟨version, made, records⟩

theorem Made.of_numbers {id : RuntimeId} {version : GameVersion} (made : Made before id version)
    (numbers : Numbers before after) : Made after id version :=
  ⟨(numbers.made id made.2).trans made.1, Nat.lt_of_lt_of_le made.2 numbers.next⟩

theorem Numbered.of_same (numbered : Numbered before) (same : SameBuild before after) :
    Numbered after := by
  intro id named
  rw [same.runtimeId] at named
  exact Nat.lt_of_lt_of_le (numbered id named) same.numbers.next

/-! ### The calls that leave it alone -/

/-- The update writes none of these columns. -/
def ServerChange.LeavesBuild (change : ServerChange) : Prop :=
  change.version = none ∧ change.gameVersionId = none ∧ change.runtimeId = none

/-- The call writes none of these columns. -/
def LeavesBuild : Call → Prop
  | .updateServer change => change.LeavesBuild
  | _ => True

theorem label_of_server (same : after.server = before.server) :
    after.label = before.label ∧ after.runtimeId = before.runtimeId := by
  rw [World.label, World.runtimeId, same]
  exact ⟨rfl, rfl⟩

theorem label_apply {row : ServerRow} {change : ServerChange} {now : Time}
    (leaves : change.LeavesBuild) (there : before.server = some row)
    (written : after.server = some (row.apply change now)) :
    after.label = before.label ∧ after.runtimeId = before.runtimeId := by
  obtain ⟨noVersion, noLink, noRuntime⟩ := leaves
  unfold World.label World.runtimeId
  rw [there, written]
  simp [ServerRow.apply, noVersion, noLink, noRuntime]

theorem sameBuild_answer {findGame : GameId → Option GameDefinition} (outcome : Outcome)
    (call : Call) (world : World) (leaves : LeavesBuild call) :
    SameBuild world (answer findGame outcome call world).2 := by
  have columns : (answer findGame outcome call world).2.label = world.label ∧
      (answer findGame outcome call world).2.runtimeId = world.runtimeId := by
    refine @kept_by_answer findGame
      (fun after => after.label = world.label ∧ after.runtimeId = world.runtimeId) LeavesBuild
      ?_ ?_ outcome call world leaves ⟨rfl, rfl⟩
    · intro outcome call after _ same
      obtain ⟨label, runtimeId⟩ := label_of_server (server_later after outcome call)
      exact ⟨label.trans same.1, runtimeId.trans same.2⟩
    · intro outcome call middle reply after permitted same performed
      suffices kept : after.label = middle.label ∧ after.runtimeId = middle.runtimeId from
        ⟨kept.1.trans same.1, kept.2.trans same.2⟩
      cases writes : call.writesServer with
      | false => exact label_of_server ((perform_frame performed).server writes)
      | true =>
        cases call with
        | claimServer operation owner since =>
          simp only [perform] at performed
          split at performed
          · rename_i there
            split at performed
            · cases performed
              unfold World.label World.runtimeId
              rw [there]
              exact ⟨rfl, rfl⟩
            · cases performed
              exact ⟨rfl, rfl⟩
          · cases performed
            exact ⟨rfl, rfl⟩
        | updateServer change =>
          simp only [perform] at performed
          split at performed
          · rename_i there
            split at performed
            · cases performed
            · cases performed
              exact label_apply permitted there rfl
          · cases performed
        | _ => cases writes
  exact ⟨⟨columns.1, (answer_frame outcome call world).catalog, answer_numbers outcome call world⟩,
    columns.2⟩

/-- Code that leaves these columns alone ends with the same version and the same workload. -/
theorem ends_sameBuild {panel : Workspace} {faults : interface.Site → Outcome}
    {code : PanelCode Locals Result} (makes : Makes LeavesBuild code) (locals : Locals)
    (world : World) :
    Ends panel faults code locals world fun _ _ later => SameBuild world later := by
  have kept : ∀ outcome call middle, LeavesBuild call → SameBuild world middle →
      SameBuild world ((machine panel.findGame).answer 0 outcome call middle).2 := ?_
  · exact Code.ends_of_uses kept makes (SameBuild.refl world)
  intro outcome call middle permitted same
  exact same.trans (sameBuild_answer outcome call middle permitted)

theorem leaves_of_progress (call : Call) (progress : ProgressCall call) : LeavesBuild call := by
  cases progress with
  | _ => first | exact ⟨rfl, rfl, rfl⟩ | trivial

theorem leaves_of_stop {at_ : NodeId} {ref : RuntimeRef} (call : Call)
    (stop : StopCall at_ ref call) : LeavesBuild call := by
  cases stop with
  | _ => trivial

theorem leaves_of_claim {operation : Operation} (call : Call) (claim : ClaimCall operation call) :
    LeavesBuild call := by
  cases claim with
  | _ => trivial

theorem leaves_of_install {context : InstallContext} (call : Call)
    (install : InstallCall context call) : LeavesBuild call := by
  cases install with
  | progress progress => exact leaves_of_progress call progress
  | _ => trivial

theorem leaves_of_backup (call : Call) (backup : BackupCall call) : LeavesBuild call := by
  cases backup with
  | claim claim => exact leaves_of_claim call claim
  | back state => exact ⟨rfl, rfl, rfl⟩
  | _ => trivial

end Geeboard.Panel
