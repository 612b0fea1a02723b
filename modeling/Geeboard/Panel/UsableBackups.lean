/-
This file is about what the state of a backup's row says: that the backup is done.

Backups are taken, locked, unlocked, deleted and removed by retention at the same
time, each by statements of its own. A row is made before there is an archive, and
the archive is recorded when it is complete. The lock of a backup is the same column
as its progress, and it is written by the row's id alone: on a row without an archive
it makes a backup that reads as usable and is not, and once it is unlocked again,
retention counts it.
-/

import Geeboard.Panel.Retention
import Geeboard.Systems.Steps

namespace Geeboard.Panel.Progress

open List

/-- How far a request is: a backup whose row is made, whose archive is made, or is recorded; a
lock that has read its row; a deletion that has, and retention with the rows it chose. -/
inductive Job where
  | idle
  | made (id : BackupId)
  | archived (id : BackupId) (archive : ArchiveResult)
  | recorded (id : BackupId) (archive : ArchiveResult)
  | locking (id : BackupId) (locked : Bool)
  | deleting (id : BackupId)
  | pruning (chosen : List BackupId)
  | ended
  deriving DecidableEq, Repr

/-- The rows of the backups, the archives that nodes have written, and the requests. -/
structure State where
  rows : List BackupRow
  written : List ArchiveResult
  jobs : Nat → Job

/-- A backup's row is made, its archive written, kept and recorded, or the backup fails, with the
archive left on the node or not; a lock reads its row and writes it; a deletion reads and deletes;
retention chooses, and deletes or passes over one after another; and a request ends. -/
inductive Event where
  | create (job : Nat) (id : BackupId) (backup : NewBackup) (createdAt : Time)
  | archive (job : Nat) (result : ArchiveResult)
  | record (job : Nat) (kept : BackupStore) (durationMs : Nat)
  | fail (job : Nat) (said : String) (left : Bool)
  | readLock (job : Nat) (id : BackupId) (locked : Bool)
  | writeLock (job : Nat)
  | readDelete (job : Nat) (id : BackupId)
  | delete (job : Nat)
  | choose (job keep : Nat) (now : Time)
  | prune (job : Nat)
  | pass (job : Nat)
  | leave (job : Nat)

def State.setJob (state : State) (job : Nat) (to_ : Job) : State :=
  { state with jobs := Function.update state.jobs job to_ }

/-- An update of the row of a backup, by its id. -/
def State.change (state : State) (id : BackupId) (change : BackupChange) : State :=
  { state with rows := state.rows.map fun row => if row.id = id then row.apply change else row }

def State.drop (state : State) (id : BackupId) : State :=
  { state with rows := state.rows.filter fun row => row.id ≠ id }

/-- A row as it is made. -/
def freshRow (id : BackupId) (backup : NewBackup) (createdAt : Time) : BackupRow where
  id := id
  serverId := some backup.serverId
  name := backup.name
  sizeBytes := 0
  trigger := backup.trigger
  state := .running
  checksum := none
  store := none
  artifact := none
  durationMs := none
  error := none
  originServerId := none
  originServerName := none
  originGameId := none
  originOwnerId := none
  createdAt := createdAt

/-- What is recorded of an archive. -/
def recordOf (archive : ArchiveResult) (kept : BackupStore) (durationMs : Nat) : BackupChange :=
  { state := some .complete, sizeBytes := some archive.sizeBytes
    checksum := some archive.checksum, store := some kept, artifact := some archive.artifact
    durationMs := some durationMs }

/-- What is written of a backup that failed. -/
def failureOf (archive : Option ArchiveResult) (said : String) (left : Bool) : BackupChange :=
  let leftOnNode := if left then archive.map ArchiveResult.artifact else none
  { state := some .failed, error := some said
    store := leftOnNode.map fun _ => .local_, artifact := leftOnNode }

/-- The backup a request has begun, and the archive it has, while it can still fail. -/
def Job.taking : Job → Option (BackupId × Option ArchiveResult)
  | .made id => some (id, none)
  | .archived id archive => some (id, some archive)
  | .recorded id archive => some (id, some archive)
  | _ => none

/-- The state a lock or an unlock writes. -/
def lockState (locked : Bool) : BackupState := if locked then .locked else .complete

/-- The rows retention asks for. -/
def pruneable (rows : List BackupRow) : List BackupRow :=
  rows.filter fun row => [BackupState.complete, .failed].contains row.state

def step (state : State) : Event → Option State
  | .create job id backup createdAt =>
    match state.jobs job with
    | .idle =>
      some ({ state with rows := freshRow id backup createdAt :: state.rows }.setJob job (.made id))
    | _ => none
  | .archive job result =>
    match state.jobs job with
    | .made id =>
      some ({ state with written := result :: state.written }.setJob job (.archived id result))
    | _ => none
  | .record job kept durationMs =>
    match state.jobs job with
    | .archived id archive =>
      some ((state.change id (recordOf archive kept durationMs)).setJob job
        (.recorded id archive))
    | _ => none
  | .fail job said left =>
    match (state.jobs job).taking with
    | some (id, archive) =>
      some ((state.change id (failureOf archive said left)).setJob job .ended)
    | none => none
  | .readLock job id locked =>
    match state.jobs job with
    | .idle =>
      if state.rows.any fun row => row.id = id then some (state.setJob job (.locking id locked))
      else none
    | _ => none
  | .writeLock job =>
    match state.jobs job with
    | .locking id locked =>
      some ((state.change id { state := some (lockState locked) }).setJob job .ended)
    | _ => none
  | .readDelete job id =>
    match state.jobs job with
    | .idle =>
      if state.rows.any fun row => row.id = id && row.state ≠ .locked then
        some (state.setJob job (.deleting id))
      else none
    | _ => none
  | .delete job =>
    match state.jobs job with
    | .deleting id => some ((state.drop id).setJob job .ended)
    | _ => none
  | .choose job keep now =>
    match state.jobs job with
    | .idle =>
      some (state.setJob job
        (.pruning ((planRetention (pruneable state.rows) keep now).map BackupRow.id)))
    | _ => none
  | .prune job =>
    match state.jobs job with
    | .pruning (id :: rest) => some ((state.drop id).setJob job (.pruning rest))
    | _ => none
  | .pass job =>
    match state.jobs job with
    | .pruning (_ :: rest) => some (state.setJob job (.pruning rest))
    | _ => none
  | .leave job => some (state.setJob job .ended)

/-! ### What a row says -/

/-- The row has the artifact, the checksum and the size of an archive that was written. -/
def Finished (written : List ArchiveResult) (row : BackupRow) : Prop :=
  ∃ archive ∈ written, row.artifact = some archive.artifact ∧
    row.checksum = some archive.checksum ∧ row.sizeBytes = archive.sizeBytes

/-- A backup that reads as usable is. -/
def Usable (state : State) : Prop :=
  ∀ row ∈ state.rows, row.state = .complete ∨ row.state = .locked → Finished state.written row

/-- A lock or an unlock is written on a row that records its archive. -/
def LocksFinished (state : State) : Event → Prop
  | .writeLock job =>
    match state.jobs job with
    | .locking id _ => ∀ row ∈ state.rows, row.id = id → Finished state.written row
    | _ => True
  | _ => True

/-- What a request has was written. -/
def Written (state : State) : Prop :=
  ∀ job id archive, (state.jobs job).taking = some (id, some archive) → archive ∈ state.written

/-! ### What a step does -/

/-- What a step that can happen does: it makes a row, writes, records or fails an archive, writes
a lock, or adds no row and takes up no backup. -/
inductive Does (state : State) : Event → State → Prop where
  | create (job : Nat) (id : BackupId) (backup : NewBackup) (createdAt : Time) :
    Does state (.create job id backup createdAt)
      ({ state with rows := freshRow id backup createdAt :: state.rows }.setJob job (.made id))
  | archive (job : Nat) (id : BackupId) (result : ArchiveResult) :
    Does state (.archive job result)
      ({ state with written := result :: state.written }.setJob job (.archived id result))
  | record (job : Nat) (id : BackupId) (archive : ArchiveResult) (kept : BackupStore)
      (durationMs : Nat) (archived : state.jobs job = .archived id archive) :
    Does state (.record job kept durationMs)
      ((state.change id (recordOf archive kept durationMs)).setJob job (.recorded id archive))
  | fail (job : Nat) (id : BackupId) (archive : Option ArchiveResult) (said : String)
      (left : Bool) :
    Does state (.fail job said left)
      ((state.change id (failureOf archive said left)).setJob job .ended)
  | writeLock (job : Nat) (id : BackupId) (locked : Bool)
      (locking : state.jobs job = .locking id locked) :
    Does state (.writeLock job)
      ((state.change id { state := some (lockState locked) }).setJob job .ended)
  | other (event : Event) (job : Nat) (to_ : Job) (rows : List BackupRow)
      (fewer : ∀ row ∈ rows, row ∈ state.rows) (nothing : to_.taking = none)
      (noLock : ∀ job, event ≠ .writeLock job) :
    Does state event ({ state with rows := rows }.setJob job to_)

section

variable {state next : State}

theorem does_setJob {event : Event} (job : Nat) {to_ : Job} (nothing : to_.taking = none)
    (noLock : ∀ job, event ≠ .writeLock job) : Does state event (state.setJob job to_) :=
  .other event job to_ state.rows (fun _ member => member) nothing noLock

theorem does_drop {event : Event} (job : Nat) {to_ : Job} (id : BackupId)
    (nothing : to_.taking = none) (noLock : ∀ job, event ≠ .writeLock job) :
    Does state event ((state.drop id).setJob job to_) :=
  .other event job to_ _ (fun _ member => (mem_filter.mp member).1) nothing noLock

theorem does_of_step {event : Event} (taken : step state event = some next) :
    Does state event next := by
  unfold step at taken
  cases event with
  | create job id backup createdAt =>
    dsimp only at taken
    split at taken
    · cases taken
      exact .create job id backup createdAt
    · cases taken
  | archive job result =>
    dsimp only at taken
    split at taken
    · cases taken
      exact .archive job _ result
    · cases taken
  | record job kept durationMs =>
    dsimp only at taken
    split at taken
    · rename_i id archive archived
      cases taken
      exact .record job id archive kept durationMs archived
    · cases taken
  | fail job said left =>
    dsimp only at taken
    split at taken
    · cases taken
      exact .fail job _ _ said left
    · cases taken
  | writeLock job =>
    dsimp only at taken
    split at taken
    · rename_i id locked locking
      cases taken
      exact .writeLock job id locked locking
    · cases taken
  | readLock job id locked =>
    dsimp only at taken
    split at taken
    · split at taken
      · cases taken
        exact does_setJob job rfl (by rintro _ ⟨⟩)
      · cases taken
    · cases taken
  | readDelete job id =>
    dsimp only at taken
    split at taken
    · split at taken
      · cases taken
        exact does_setJob job rfl (by rintro _ ⟨⟩)
      · cases taken
    · cases taken
  | delete job =>
    dsimp only at taken
    split at taken
    · cases taken
      exact does_drop job _ rfl (by rintro _ ⟨⟩)
    · cases taken
  | choose job keep now =>
    dsimp only at taken
    split at taken
    · cases taken
      exact does_setJob job rfl (by rintro _ ⟨⟩)
    · cases taken
  | prune job =>
    dsimp only at taken
    split at taken
    · cases taken
      exact does_drop job _ rfl (by rintro _ ⟨⟩)
    · cases taken
  | pass job =>
    dsimp only at taken
    split at taken
    · cases taken
      exact does_setJob job rfl (by rintro _ ⟨⟩)
    · cases taken
  | leave job =>
    cases taken
    exact does_setJob job rfl (by rintro _ ⟨⟩)

/-! ### What is kept -/

theorem Finished.mono {written more : List ArchiveResult} {row : BackupRow}
    (all : ∀ archive ∈ written, archive ∈ more) (finished : Finished written row) :
    Finished more row := by
  obtain ⟨archive, member, same⟩ := finished
  exact ⟨archive, all archive member, same⟩

theorem Written.setJob (written : Written state) {job : Nat} {to_ : Job}
    (own : ∀ id archive, to_.taking = some (id, some archive) → archive ∈ state.written) :
    Written (state.setJob job to_) := by
  intro other id archive taking
  unfold State.setJob at taking
  dsimp only at taking
  by_cases same : other = job
  · rw [same, Function.update_self] at taking
    exact own id archive taking
  · rw [Function.update_of_ne same] at taking
    exact written other id archive taking

/-- A request that takes up no archive leaves what was written as it is. -/
theorem Written.setOther (written : Written state) {job : Nat} {to_ : Job}
    (nothing : ∀ id archive, to_.taking ≠ some (id, some archive)) :
    Written (state.setJob job to_) :=
  written.setJob fun id archive taking => absurd taking (nothing id archive)

theorem written_step {event : Event} (written : Written state) (does : Does state event next) :
    Written next := by
  have same : ∀ rows, Written { state with rows := rows } := fun _ => written
  cases does with
  | create job id backup createdAt => exact (same _).setOther (by rintro id archive ⟨⟩)
  | archive job id result =>
    have more : Written { state with written := result :: state.written } :=
      fun other id archive taking => mem_cons_of_mem _ (written other id archive taking)
    refine more.setJob ?_
    rintro id archive ⟨⟩
    exact mem_cons_self
  | record job id archive kept durationMs archived =>
    refine (same _).setJob ?_
    rintro id other ⟨⟩
    exact written job id archive (by rw [archived]; rfl)
  | fail | writeLock => exact (same _).setOther (by rintro id archive ⟨⟩)
  | other event job to_ rows fewer nothing noLock =>
    exact (same rows).setOther fun id archive taking => by
      rw [nothing] at taking
      cases taking

/-- A change of one row keeps what reads as usable so just when the changed row is. -/
theorem usable_change (usable : Usable state) (id : BackupId) (change : BackupChange) :
    Usable (state.change id change) ↔ ∀ row ∈ state.rows, row.id = id →
      (row.apply change).state = .complete ∨ (row.apply change).state = .locked →
        Finished state.written (row.apply change) := by
  unfold Usable State.change
  dsimp only
  rw [List.forall_mem_map]
  refine forall₂_congr fun row member => ?_
  by_cases same : row.id = id
  · rw [if_pos same, imp_iff_right same]
  · rw [if_neg same]
    exact iff_of_true (usable row member) fun is => absurd is same

theorem usable_step {event : Event} (written : Written state) (usable : Usable state)
    (does : Does state event next) : Usable next ↔ LocksFinished state event := by
  cases does with
  | create job id backup createdAt =>
    refine iff_of_true (forall_mem_cons.mpr ⟨?_, usable⟩) trivial
    rintro (⟨⟨⟩⟩ | ⟨⟨⟩⟩)
  | archive job id result =>
    refine iff_of_true (fun row member state_ => ?_) trivial
    exact (usable row member state_).mono fun archive inside => mem_cons_of_mem _ inside
  | record job id archive kept durationMs archived =>
    refine iff_of_true ((usable_change usable id _).mpr fun row _ _ _ => ?_) trivial
    exact ⟨archive, written job id archive (by rw [archived]; rfl), rfl, rfl, rfl⟩
  | fail job id archive said left =>
    refine iff_of_true ((usable_change usable id _).mpr fun row _ _ state_ => ?_) trivial
    exact state_.elim (fun is => by cases is) fun is => by cases is
  | writeLock job id locked locking =>
    refine (usable_change usable id _).trans ?_
    unfold LocksFinished
    dsimp only
    rw [locking]
    refine forall₃_congr fun row _ _ => ⟨fun finished => finished ?_, fun finished _ => finished⟩
    unfold BackupRow.apply lockState
    cases locked with
    | true => exact .inr rfl
    | false => exact .inl rfl
  | other event job to_ rows fewer nothing noLock =>
    refine iff_of_true (fun row member => usable row (fewer row member)) ?_
    cases event with
    | writeLock job => exact absurd rfl (noLock job)
    | _ => trivial

theorem locksFinished_idle {event : Event} (idle : step state event = none) :
    LocksFinished state event := by
  cases event with
  | writeLock job =>
    unfold step at idle
    unfold LocksFinished
    dsimp only at idle ⊢
    split at idle
    · cases idle
    · trivial
  | _ => trivial

/-! ### What retention keeps -/

/-- The surplus of retention stands behind `keep` complete backups that are as new, each a row of
its own. -/
theorem surplus_behind {rows : List BackupRow} {keep : Nat} {now : Time} {row : BackupRow}
    (chosen : row ∈ planRetention rows keep now) (complete : row.state = .complete) :
    ∃ newer : List BackupRow, newer.length = keep ∧ (newer ++ [row]).Subperm rows ∧
      ∀ other ∈ newer, other.state = .complete ∧ row.createdAt ≤ other.createdAt := by
  unfold planRetention at chosen
  dsimp only at chosen
  generalize sorted : (rows.filter fun row => row.state == .complete).mergeSort
    (fun first second => second.createdAt ≤ first.createdAt) = complete_ at chosen
  have surplus : row ∈ complete_.drop keep := by
    refine (mem_append.mp chosen).resolve_right fun stale => ?_
    have failed := (mem_filter.mp stale).2
    rw [complete] at failed
    cases failed
  have ordered : complete_.Pairwise fun first second => second.createdAt ≤ first.createdAt := by
    rw [← sorted]
    have pairwise := @List.pairwise_mergeSort BackupRow
      (fun first second => second.createdAt ≤ first.createdAt)
      (fun one two three first second => by
        rw [decide_eq_true_eq] at first second ⊢
        exact second.trans first)
      (fun one two => by
        rw [Bool.or_eq_true, decide_eq_true_eq, decide_eq_true_eq]
        exact Nat.le_total _ _)
      (rows.filter fun row => row.state == .complete)
    exact pairwise.imp fun le => of_decide_eq_true le
  have among : complete_.Subperm rows := by
    rw [← sorted]
    exact (mergeSort_perm _ _).subperm.trans filter_sublist.subperm
  refine ⟨complete_.take keep, ?_, ?_, fun other member => ⟨?_, ?_⟩⟩
  · have longer : keep < complete_.length := by
      rw [← Nat.sub_pos_iff_lt, ← length_drop]
      exact length_pos_of_mem surplus
    exact length_take_of_le longer.le
  · refine Subperm.trans ?_ among
    conv => rhs; rw [← take_append_drop keep complete_]
    exact ((Sublist.refl _).append (singleton_sublist.mpr surplus)).subperm
  · have inside : other ∈ complete_ := mem_of_mem_take member
    rw [← sorted, mem_mergeSort, mem_filter] at inside
    exact beq_iff_eq.mp inside.2
  · rw [← take_append_drop keep complete_] at ordered
    exact (pairwise_append.mp ordered).2.2 other member row surplus

end

/-- In every state of a run a backup that reads as usable is, just when no lock or unlock is
written on a row without its archive; and in such a state retention chooses a complete backup only
behind `keep` finished ones that are as new. -/
theorem usable_backups_iff (rows : List BackupRow) (written : List ArchiveResult)
    (events : List Event) (usable : Usable ⟨rows, written, fun _ => .idle⟩) :
    (Systems.Along step Usable ⟨rows, written, fun _ => .idle⟩ events ↔
        Systems.Meets step LocksFinished ⟨rows, written, fun _ => .idle⟩ events) ∧
      ∀ state, Usable state → ∀ keep now,
        ∀ row ∈ planRetention (pruneable state.rows) keep now, row.state = .complete →
          ∃ newer : List BackupRow, newer.length = keep ∧ (newer ++ [row]).Subperm state.rows ∧
            ∀ other ∈ newer, Finished state.written other ∧ row.createdAt ≤ other.createdAt := by
  constructor
  · refine Systems.along_iff_meets
      (fun _ _ _ kept _ _ taken => written_step kept (does_of_step taken))
      (fun _ _ _ kept holds taken => usable_step kept holds (does_of_step taken))
      (fun _ _ idle => locksFinished_idle idle) ?_ usable
    rintro job id archive ⟨⟩
  · intro state usable keep now row chosen complete
    obtain ⟨newer, length, among, each⟩ := surplus_behind chosen complete
    have within : (newer ++ [row]).Subperm state.rows :=
      among.trans filter_sublist.subperm
    refine ⟨newer, length, within, fun other member => ?_⟩
    obtain ⟨is, later⟩ := each other member
    exact ⟨usable other (within.subset (mem_append_left _ member)) (.inl is), later⟩

/-! ### A backup locked while it is taken -/

def worldBackup : NewBackup := ⟨"s1", "manual-09-11", .manual⟩

def worldArchive : ArchiveResult := ⟨"world-manual-09-11", 3, [("level.dat", "x")], 5, []⟩

/-- A backup is taken, and locked when it is done. -/
def lockedAfter : List Event := [.create 0 0 worldBackup 0, .archive 0 worldArchive,
  .record 0 .local_ 5, .readLock 1 0 true, .writeLock 1]

theorem usable_backups_iff_lockedAfter :
    Systems.Along step Usable ⟨[], [], fun _ => .idle⟩ lockedAfter := by
  refine (usable_backups_iff [] [] lockedAfter (by rintro row ⟨⟩)).1.mpr ?_
  iterate 4
    refine Systems.meets_cons trivial rfl ?_
  refine ⟨fun row member _ => ?_, fun next taken => trivial⟩
  obtain rfl := mem_singleton.mp member
  exact ⟨worldArchive, mem_singleton.mpr rfl, rfl, rfl, rfl⟩

/-- A backup is locked while its archive is being made. -/
def lockedWhileTaken : List Event := [.create 0 0 worldBackup 0, .readLock 1 0 true, .writeLock 1]

theorem locked_without_archive :
    (Systems.run step ⟨[], [], fun _ => .idle⟩ lockedWhileTaken).map (fun last =>
      last.rows.map fun row => (row.state, row.artifact)) = some [(.locked, none)] := by
  decide +kernel

/-- A locked backup has no archive. -/
theorem usable_backup_without_archive :
    ¬ ∀ events, Systems.Along step Usable ⟨[], [], fun _ => .idle⟩ events := by
  intro always
  obtain ⟨last, run, rows⟩ := Option.map_eq_some_iff.mp locked_without_archive
  have usable : Usable last := Systems.along_last (always lockedWhileTaken) run
  obtain ⟨row, only_, both⟩ := map_eq_singleton_iff.mp rows
  obtain ⟨locked, noArtifact⟩ := Prod.mk.inj both
  have member : row ∈ last.rows := by
    rw [only_]
    exact mem_singleton.mpr rfl
  obtain ⟨archive, -, artifact, -⟩ := usable row member (.inr locked)
  rw [noArtifact] at artifact
  cases artifact

end Geeboard.Panel.Progress
