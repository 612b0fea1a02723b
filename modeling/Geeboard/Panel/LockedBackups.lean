/-
This file is about a locked backup: that it stays.

Deletion, retention and the move of a server choose first and remove afterwards, an
archive and then its row, or all rows and archives of a node at once. Each of them
looks at the lock when it chooses and not when it removes, and the lock is written
without looking at them. So a lock that lands on a backup somebody has chosen says
"kept indefinitely" of a backup that goes; one that lands on a backup nobody has
chosen holds.
-/

import Geeboard.Panel.UsableBackups

namespace Geeboard.Panel.Locked

open List Option Function
open Progress (lockState pruneable)

/-! ### Rows and archives -/

/-- Where an archive lies: on the server's node, or in the bucket. -/
inductive Place where
  | node | bucket
  deriving DecidableEq, Repr

/-- The archive of a row. A row without a store has none. -/
def archiveOf (row : BackupRow) : Option (Place × String) :=
  match row.store with
  | none => none
  | some .local_ => row.artifact.map (Place.node, ·)
  | some .s3 => row.artifact.map (Place.bucket, ·)

/-- Whether two rows have one archive. -/
def sameArchive (one other : BackupRow) : Bool :=
  (archiveOf one).isSome && archiveOf one == archiveOf other

def isLocal (row : BackupRow) : Bool := row.store == some .local_

/-- How far a request is: a lock that has read, or is written; a deletion that has read, or removed
the archive; retention with what it chose, or with an archive removed whose row is next; a move that
has counted the locked backups, removed the local rows, or the old copy. -/
inductive Job where
  | idle
  | locking (id : BackupId) (locked : Bool)
  | locked (id : BackupId)
  | deleting (row : BackupRow)
  | dropping (id : BackupId)
  | pruning (chosen : List BackupRow)
  | pruned (id : BackupId) (rest : List BackupRow)
  | moving (own : Option BackupId)
  | clearing (own : Option BackupId)
  | moved (own : Option BackupId)
  | ended
  deriving DecidableEq, Repr

/-- A lock that was recorded: the row as it was then, and whether its archive was there. -/
structure Promise where
  row : BackupRow
  there : Bool
  deriving DecidableEq, Repr

/-- The rows, the archives there are, the requests, the locks recorded and not given up since, and
those of them that were reported as done. -/
structure State where
  rows : List BackupRow
  archives : List (Place × String)
  jobs : Nat → Job
  held : BackupId → Option Promise
  reported : BackupId → Bool

inductive Event where
  | readLock (job : Nat) (id : BackupId) (locked : Bool)
  | writeLock (job : Nat)
  | report (job : Nat)
  | readDelete (job : Nat) (id : BackupId)
  | removeArchive (job : Nat)
  | keepArchive (job : Nat)
  | delete (job : Nat)
  | choose (job keep : Nat) (now : Time)
  | pruneArchive (job : Nat)
  | spareArchive (job : Nat)
  | pruneRow (job : Nat)
  | pass (job : Nat)
  | count (job : Nat)
  | archiveOffsite (job : Nat) (row : BackupRow) (artifact : String) (kept : Bool)
  | mark (job : Nat) (locked : Bool)
  | dropLocal (job : Nat)
  | destroy (job : Nat)
  | leave (job : Nat)

def State.setJob (state : State) (job : Nat) (to_ : Job) : State :=
  { state with jobs := Function.update state.jobs job to_ }

/-- The state of a row written by its id. -/
def State.setState (state : State) (id : BackupId) (to_ : BackupState) : State :=
  { state with
    rows := state.rows.map fun row => if row.id = id then row.apply { state := some to_ } else row }

def State.dropRows (state : State) (keep : BackupRow → Bool) : State :=
  { state with rows := state.rows.filter keep }

def State.removeArchives (state : State) (keep : Place × String → Bool) : State :=
  { state with archives := state.archives.filter keep }

/-- A backup is locked no more. -/
def State.giveUp (state : State) (id : BackupId) : State :=
  { state with
    held := Function.update state.held id none
    reported := Function.update state.reported id false }

/-- A lock is recorded of a row. One that was reported already stays so. -/
def State.hold (state : State) (row : BackupRow) : State :=
  { state with
    held := Function.update state.held row.id
      (some ⟨row, (archiveOf row).any fun archive => state.archives.contains archive⟩) }

/-- The backup a move has made for itself is there, in the bucket or kept on the node. -/
def State.withOwn (state : State) (row : BackupRow) (artifact : String) (kept : Bool) : State :=
  { state with
    rows :=
      { row with
        state := .complete
        store := some (if kept then .local_ else .s3)
        artifact := some artifact } :: state.rows
    archives :=
      if kept then (.node, artifact) :: state.archives
      else (.bucket, artifact) ::
        state.archives.filter fun archive => archive ≠ (Place.node, artifact) }

/-- The backup a move has made for itself, while it may mark it. -/
def Job.own : Job → Option BackupId
  | .moving own | .clearing own | .moved own => own
  | _ => none

def step (state : State) : Event → Option State
  | .readLock job id locked =>
    match state.jobs job with
    | .idle =>
      if state.rows.any fun row => row.id = id then some (state.setJob job (.locking id locked))
      else none
    | _ => none
  | .writeLock job =>
    match state.jobs job with
    | .locking id locked =>
      match state.rows.find? fun row => row.id = id with
      | none => some (state.setJob job .ended)
      | some row =>
        let noted := if locked then state.hold row else state.giveUp id
        some ((noted.setState id (lockState locked)).setJob job (.locked id))
    | _ => none
  | .report job =>
    match state.jobs job with
    | .locked id =>
      some { state.setJob job .ended with
        reported := Function.update state.reported id (state.held id).isSome }
    | _ => none
  | .readDelete job id =>
    match state.jobs job with
    | .idle =>
      match state.rows.find? fun row => row.id = id with
      | some row =>
        if row.state = .locked then some (state.setJob job .ended)
        else some (state.setJob job (.deleting row))
      | none => none
    | _ => none
  | .removeArchive job =>
    match state.jobs job with
    | .deleting row =>
      some ((state.removeArchives fun archive => some archive ≠ archiveOf row).setJob job
        (.dropping row.id))
    | _ => none
  | .keepArchive job =>
    match state.jobs job with
    | .deleting row => some (state.setJob job (.dropping row.id))
    | _ => none
  | .delete job =>
    match state.jobs job with
    | .dropping id => some ((state.dropRows fun row => row.id ≠ id).setJob job .ended)
    | _ => none
  | .choose job keep now =>
    match state.jobs job with
    | .idle => some (state.setJob job (.pruning (planRetention (pruneable state.rows) keep now)))
    | _ => none
  | .pruneArchive job =>
    match state.jobs job with
    | .pruning (row :: rest) =>
      some ((state.removeArchives fun archive => some archive ≠ archiveOf row).setJob job
        (.pruned row.id rest))
    | _ => none
  | .spareArchive job =>
    -- The node has no agent, or the row no archive: the row goes alone.
    match state.jobs job with
    | .pruning (row :: rest) => some (state.setJob job (.pruned row.id rest))
    | _ => none
  | .pruneRow job =>
    match state.jobs job with
    | .pruned id rest =>
      some ((state.dropRows fun row => row.id ≠ id).setJob job (.pruning rest))
    | _ => none
  | .pass job =>
    match state.jobs job with
    | .pruning (_ :: rest) => some (state.setJob job (.pruning rest))
    | _ => none
  | .count job =>
    match state.jobs job with
    | .idle =>
      if state.rows.any fun row => row.state = .locked && isLocal row then
        some (state.setJob job .ended)
      else some (state.setJob job (.moving none))
    | _ => none
  | .archiveOffsite job row artifact kept =>
    -- The bucket takes the archive, or fails to, and it is kept as a local one.
    match state.jobs job with
    | .moving none =>
      if state.rows.any fun other => other.id = row.id then none
      else
        some ((state.withOwn row artifact kept).setJob job (.moving (some row.id)))
    | _ => none
  | .mark job locked =>
    match (state.jobs job).own with
    | some id =>
      let noted := if locked then state else state.giveUp id
      some (noted.setState id (lockState locked))
    | none => none
  | .dropLocal job =>
    match state.jobs job with
    | .moving own => some ((state.dropRows fun row => !isLocal row).setJob job (.clearing own))
    | _ => none
  | .destroy job =>
    match state.jobs job with
    | .clearing own =>
      some ((state.removeArchives fun archive => archive.1 ≠ Place.node).setJob job (.moved own))
    | _ => none
  | .leave job => some (state.setJob job .ended)

/-! ### What is to hold, and when it does -/

/-- A request has chosen a row or its archive for removal. -/
def Takes (job : Job) (row : BackupRow) : Prop :=
  match job with
  | .deleting chosen => chosen.id = row.id ∨ sameArchive chosen row = true
  | .dropping id => id = row.id
  | .pruning chosen => ∃ one ∈ chosen, one.id = row.id ∨ sameArchive one row = true
  | .pruned id rest => id = row.id ∨ ∃ one ∈ rest, one.id = row.id ∨ sameArchive one row = true
  | .moving _ | .clearing _ => isLocal row = true
  | _ => False

/-- A backup whose lock was recorded and reported is there, row and archive, while it is locked. -/
def Stay (state : State) : Prop :=
  ∀ id promise, state.held id = some promise → state.reported id = true →
    (∃ row ∈ state.rows, row.id = id) ∧
      (promise.there = true → ∀ archive, archiveOf promise.row = some archive →
        archive ∈ state.archives)

/-- No row there has this one's archive and is locked. -/
def ArchiveFree (state : State) (row : BackupRow) : Prop :=
  ∀ other ∈ state.rows, other.state = .locked → sameArchive row other = false

/-- A lock is written on a backup that no deletion, pruning or move under way has chosen; and what a
deletion or a pruning chooses has no archive in common with a locked backup. -/
def NotTaken (state : State) : Event → Prop
  | .writeLock job =>
    ∀ id, state.jobs job = .locking id true → ∀ row ∈ state.rows, row.id = id →
      ∀ other, ¬ Takes (state.jobs other) row
  | .readDelete _ id => ∀ row ∈ state.rows, row.id = id → row.state ≠ .locked → ArchiveFree state row
  | .choose _ keep now => ∀ row ∈ planRetention (pruneable state.rows) keep now, ArchiveFree state row
  | _ => True

/-- What holds along a run of such steps. -/
structure Kept (state : State) : Prop where
  ids : (state.rows.map BackupRow.id).Nodup
  rows : ∀ id promise, state.held id = some promise → promise.row.id = id ∧
    ∃ row ∈ state.rows, row.id = id ∧ row.state = .locked ∧ row.store = promise.row.store ∧
      row.artifact = promise.row.artifact
  archives : ∀ id promise, state.held id = some promise → promise.there = true →
    ∀ archive, archiveOf promise.row = some archive → archive ∈ state.archives
  jobs : ∀ id promise job, state.held id = some promise → ¬ Takes (state.jobs job) promise.row

section

variable {state next : State}

theorem Kept.stay (kept : Kept state) : Stay state := by
  intro id promise held _
  obtain ⟨-, row, member, same, -⟩ := kept.rows id promise held
  exact ⟨⟨row, member, same⟩, kept.archives id promise held⟩

theorem archiveOf_congr {one other : BackupRow} (store : one.store = other.store)
    (artifact : one.artifact = other.artifact) : archiveOf one = archiveOf other := by
  unfold archiveOf
  rw [store, artifact]

theorem Kept.setJob (kept : Kept state) {job : Nat} {to_ : Job}
    (own : ∀ id promise, state.held id = some promise → ¬ Takes to_ promise.row) :
    Kept (state.setJob job to_) := by
  refine ⟨kept.ids, kept.rows, kept.archives, fun id promise other held => ?_⟩
  unfold State.setJob
  dsimp only
  by_cases same : other = job
  · rw [same, update_self]
    exact own id promise held
  · rw [update_of_ne same]
    exact kept.jobs id promise other held

theorem Kept.giveUp (kept : Kept state) (id : BackupId) : Kept (state.giveUp id) := by
  have before : ∀ other promise, Function.update state.held id none other = some promise →
      state.held other = some promise := by
    intro other promise held
    by_cases same : other = id
    · rw [same, update_self] at held
      cases held
    · rwa [update_of_ne same] at held
  exact ⟨kept.ids, fun other promise held => kept.rows other promise (before other promise held),
    fun other promise held => kept.archives other promise (before other promise held),
    fun other promise job held => kept.jobs other promise job (before other promise held)⟩

/-- Rows whose state is written stay who they are. -/
theorem setState_ids (state : State) (id : BackupId) (to_ : BackupState) :
    (state.setState id to_).rows.map BackupRow.id = state.rows.map BackupRow.id := by
  unfold State.setState
  rw [List.map_map]
  refine map_congr_left fun row _ => ?_
  rw [Function.comp]
  split
  · rfl
  · rfl

theorem Kept.setState (kept : Kept state) {id : BackupId} {to_ : BackupState}
    (locked : ∀ promise, state.held id = some promise → to_ = .locked) :
    Kept (state.setState id to_) := by
  refine ⟨?_, fun other promise held => ?_, kept.archives, kept.jobs⟩
  · rw [setState_ids]
    exact kept.ids
  · obtain ⟨own, row, member, same, isLocked, store, artifact⟩ := kept.rows other promise held
    refine ⟨own, _, List.mem_map_of_mem member, ?_⟩
    split
    · rename_i here
      refine ⟨same, ?_, store, artifact⟩
      exact locked promise (by rw [← here, same]; exact held)
    · exact ⟨same, isLocked, store, artifact⟩

/-- Rows may go that are of no locked backup. -/
theorem Kept.dropRows (kept : Kept state) {keep : BackupRow → Bool}
    (stays : ∀ id promise, state.held id = some promise → ∀ row ∈ state.rows, row.id = id →
      row.store = promise.row.store → keep row = true) : Kept (state.dropRows keep) := by
  refine ⟨kept.ids.sublist (filter_sublist.map _), fun id promise held => ?_, kept.archives,
    kept.jobs⟩
  obtain ⟨own, row, member, same, isLocked, store, artifact⟩ := kept.rows id promise held
  exact ⟨own, row, mem_filter.mpr ⟨member, stays id promise held row member same store⟩, same,
    isLocked, store, artifact⟩

/-- Archives may go that are of no locked backup. -/
theorem Kept.removeArchives (kept : Kept state) {keep : Place × String → Bool}
    (stays : ∀ id promise archive, state.held id = some promise →
      archiveOf promise.row = some archive → keep archive = true) :
    Kept (state.removeArchives keep) := by
  refine ⟨kept.ids, kept.rows, fun id promise held there archive is => ?_, kept.jobs⟩
  exact mem_filter.mpr
    ⟨kept.archives id promise held there archive is, stays id promise archive held is⟩

theorem eq_of_id (kept : Kept state) {one other : BackupRow} (member : one ∈ state.rows)
    (inside : other ∈ state.rows) (same : one.id = other.id) : one = other :=
  inj_on_of_nodup_map kept.ids member inside same

/-- What is chosen among the unlocked rows, with an archive of its own, takes no locked backup. -/
theorem Kept.free (kept : Kept state) {row : BackupRow} (member : row ∈ state.rows)
    (unlocked : row.state ≠ .locked) (free : ArchiveFree state row) {id : BackupId}
    {promise : Promise} (held : state.held id = some promise) :
    ¬ (row.id = promise.row.id ∨ sameArchive row promise.row = true) := by
  obtain ⟨own, other, inside, same, isLocked, store, artifact⟩ := kept.rows id promise held
  rintro (equal | archive)
  · have is : row = other := eq_of_id kept member inside (equal.trans (own.trans same.symm))
    exact unlocked (is ▸ isLocked)
  · have apart := free other inside isLocked
    unfold sameArchive at apart archive
    rw [archiveOf_congr store artifact, archive] at apart
    cases apart

/-- A lock recorded of a row that nobody has chosen. -/
theorem Kept.lock (kept : Kept state) {row : BackupRow} (member : row ∈ state.rows)
    (untaken : ∀ job, ¬ Takes (state.jobs job) row) :
    Kept ((state.hold row).setState row.id .locked) := by
  have other : ∀ id promise, (state.hold row).held id = some promise → id ≠ row.id →
      state.held id = some promise := by
    intro id promise held different
    unfold State.hold at held
    dsimp only at held
    rwa [update_of_ne different] at held
  have own : ∀ promise, (state.hold row).held row.id = some promise →
      promise = ⟨row, (archiveOf row).any fun archive => state.archives.contains archive⟩ := by
    intro promise held
    unfold State.hold at held
    dsimp only at held
    rw [update_self] at held
    exact (some.inj held).symm
  refine ⟨?_, fun id promise held => ?_, fun id promise held there archive is => ?_,
    fun id promise job held => ?_⟩
  · rw [setState_ids]
    exact kept.ids
  · by_cases same : id = row.id
    · cases same
      rw [own promise held]
      exact ⟨rfl, _, List.mem_map_of_mem member, by rw [if_pos rfl]; exact ⟨rfl, rfl, rfl, rfl⟩⟩
    · obtain ⟨is, one, inside, named, isLocked, store, artifact⟩ :=
        kept.rows id promise (other id promise held same)
      refine ⟨is, one, List.mem_map.mpr ⟨one, inside, if_neg ?_⟩, named, isLocked, store, artifact⟩
      rw [named]
      exact same
  · by_cases same : id = row.id
    · cases same
      rw [own promise held] at there is
      dsimp only at there is
      rw [is, any_some] at there
      exact contains_iff_mem.mp there
    · exact kept.archives id promise (other id promise held same) there archive is
  · by_cases same : id = row.id
    · cases same
      rw [own promise held]
      exact untaken job
    · exact kept.jobs id promise job (other id promise held same)

/-- A move's own backup takes nothing from those that are locked, as none of them is local. -/
theorem Kept.withOwn (kept : Kept state) {row : BackupRow}
    (unnamed : ∀ other ∈ state.rows, other.id ≠ row.id) (artifact : String) (onNode : Bool)
    (far : ∀ id promise, state.held id = some promise → ¬ isLocal promise.row = true) :
    Kept (state.withOwn row artifact onNode) := by
  refine ⟨?_, fun id promise held => ?_, fun id promise held there archive is => ?_, kept.jobs⟩
  · refine nodup_cons.mpr ⟨fun member => ?_, kept.ids⟩
    obtain ⟨other, inside, same⟩ := List.mem_map.mp member
    exact unnamed other inside same
  · obtain ⟨own, one, inside, rest⟩ := kept.rows id promise held
    exact ⟨own, one, mem_cons_of_mem _ inside, rest⟩
  · have before := kept.archives id promise held there archive is
    unfold State.withOwn
    dsimp only
    split
    · exact mem_cons_of_mem _ before
    · refine mem_cons_of_mem _ (mem_filter.mpr ⟨before, decide_eq_true ?_⟩)
      rintro rfl
      refine far id promise held ?_
      unfold archiveOf at is
      unfold isLocal
      split at is
      · cases is
      · rename_i near
        rw [near]
        rfl
      · obtain ⟨name, -, same⟩ := map_eq_some_iff.mp is
        cases same

theorem mem_of_found {rows : List BackupRow} {id : BackupId} {row : BackupRow}
    (found : rows.find? (fun row => row.id = id) = some row) : row ∈ rows ∧ row.id = id := by
  have hit := find?_some found
  exact ⟨mem_of_find?_eq_some found, of_decide_eq_true hit⟩

theorem ne_archiveOf {one other : BackupRow} {archive : Place × String}
    (is : archiveOf other = some archive) (apart : ¬ sameArchive one other = true) :
    some archive ≠ archiveOf one := by
  intro same
  refine apart ?_
  unfold sameArchive
  rw [is, ← same]
  exact beq_self_eq_true (some archive)

theorem kept_step {event : Event} (kept : Kept state) (notTaken : NotTaken state event)
    (taken : step state event = some next) : Kept next := by
  unfold step at taken
  cases event with
  | readLock job id locked =>
    dsimp only at taken
    split at taken
    · split at taken
      · cases taken
        exact kept.setJob fun _ _ _ => not_false
      · cases taken
    · cases taken
  | writeLock job =>
    dsimp only at taken
    split at taken
    · rename_i id locked locking
      split at taken
      · cases taken
        exact kept.setJob fun _ _ _ => not_false
      · rename_i row found
        obtain ⟨member, named⟩ := mem_of_found found
        cases taken
        cases locked with
        | true =>
          have untaken := notTaken id locking row member named
          cases named
          exact (kept.lock member untaken).setJob fun _ _ _ => not_false
        | false =>
          refine ((kept.giveUp id).setState fun promise held => ?_).setJob fun _ _ _ => not_false
          unfold State.giveUp at held
          dsimp only at held
          rw [update_self] at held
          cases held
    · cases taken
  | report job =>
    dsimp only at taken
    split at taken
    · cases taken
      have ended : Kept (state.setJob job .ended) := kept.setJob fun _ _ _ => not_false
      exact ⟨ended.ids, ended.rows, ended.archives, ended.jobs⟩
    · cases taken
  | readDelete job id =>
    dsimp only at taken
    split at taken
    · split at taken
      · rename_i row found
        obtain ⟨member, named⟩ := mem_of_found found
        split at taken
        · cases taken
          exact kept.setJob fun _ _ _ => not_false
        · rename_i unlocked
          cases taken
          exact kept.setJob fun other promise held =>
            kept.free member unlocked (notTaken row member named unlocked) held
      · cases taken
    · cases taken
  | removeArchive job =>
    dsimp only at taken
    split at taken
    · rename_i row deleting
      cases taken
      have apart : ∀ id promise, state.held id = some promise →
          ¬ (row.id = promise.row.id ∨ sameArchive row promise.row = true) := by
        intro id promise held
        have free := kept.jobs id promise job held
        rwa [deleting] at free
      refine (kept.removeArchives fun id promise archive held is => ?_).setJob
        fun id promise held => fun same => apart id promise held (.inl same)
      exact decide_eq_true (ne_archiveOf is fun same => apart id promise held (.inr same))
    · cases taken
  | keepArchive job =>
    dsimp only at taken
    split at taken
    · rename_i row deleting
      cases taken
      refine kept.setJob fun id promise held same => ?_
      have free := kept.jobs id promise job held
      rw [deleting] at free
      exact free (.inl same)
    · cases taken
  | delete job =>
    dsimp only at taken
    split at taken
    · rename_i id dropping
      cases taken
      refine (kept.dropRows fun other promise held row _ same _ => ?_).setJob
        fun _ _ _ => not_false
      have free := kept.jobs other promise job held
      rw [dropping] at free
      refine decide_eq_true fun equal => free ?_
      unfold Takes
      rw [(kept.rows other promise held).1, ← same]
      exact equal.symm
    · cases taken
  | choose job keep now =>
    dsimp only at taken
    split at taken
    · cases taken
      refine kept.setJob fun id promise held => ?_
      rintro ⟨row, chosen, same⟩
      obtain ⟨among, unlocked⟩ := mem_planRetention chosen
      exact kept.free (mem_filter.mp among).1 unlocked (notTaken row chosen) held same
    · cases taken
  | pruneArchive job =>
    dsimp only at taken
    split at taken
    · rename_i row rest pruning
      cases taken
      have apart : ∀ id promise, state.held id = some promise → ∀ one ∈ row :: rest,
          ¬ (one.id = promise.row.id ∨ sameArchive one promise.row = true) := by
        intro id promise held one member same
        have free := kept.jobs id promise job held
        rw [pruning] at free
        exact free ⟨one, member, same⟩
      refine (kept.removeArchives fun id promise archive held is => ?_).setJob
        fun id promise held => ?_
      · exact decide_eq_true (ne_archiveOf is fun same =>
          apart id promise held row mem_cons_self (.inr same))
      · rintro (same | ⟨one, member, same⟩)
        · exact apart id promise held row mem_cons_self (.inl same)
        · exact apart id promise held one (mem_cons_of_mem _ member) same
    · cases taken
  | spareArchive job =>
    dsimp only at taken
    split at taken
    · rename_i row rest pruning
      cases taken
      refine kept.setJob fun id promise held => ?_
      have free := kept.jobs id promise job held
      rw [pruning] at free
      rintro (same | ⟨one, member, same⟩)
      · exact free ⟨row, mem_cons_self, .inl same⟩
      · exact free ⟨one, mem_cons_of_mem _ member, same⟩
    · cases taken
  | pruneRow job =>
    dsimp only at taken
    split at taken
    · rename_i id rest pruned
      cases taken
      have free : ∀ other promise, state.held other = some promise →
          ¬ Takes (.pruned id rest) promise.row := by
        intro other promise held
        rw [← pruned]
        exact kept.jobs other promise job held
      refine (kept.dropRows fun other promise held row _ same _ => ?_).setJob
        fun other promise held same => free other promise held (.inr same)
      refine decide_eq_true fun equal => free other promise held (.inl ?_)
      rw [(kept.rows other promise held).1, ← same]
      exact equal.symm
    · cases taken
  | pass job =>
    dsimp only at taken
    split at taken
    · rename_i row rest pruning
      cases taken
      refine kept.setJob fun id promise held => ?_
      rintro ⟨one, member, same⟩
      have free := kept.jobs id promise job held
      rw [pruning] at free
      exact free ⟨one, mem_cons_of_mem _ member, same⟩
    · cases taken
  | count job =>
    dsimp only at taken
    split at taken
    · split at taken
      · cases taken
        exact kept.setJob fun _ _ _ => not_false
      · rename_i noneLocal
        cases taken
        refine kept.setJob fun id promise held near => noneLocal ?_
        obtain ⟨-, row, member, -, isLocked, store, -⟩ := kept.rows id promise held
        refine List.any_eq_true.mpr ⟨row, member, ?_⟩
        unfold Takes isLocal at near
        unfold isLocal
        rw [store, near, isLocked]
        rfl
    · cases taken
  | archiveOffsite job row artifact onNode =>
    dsimp only at taken
    split at taken
    · rename_i moving
      split at taken
      · cases taken
      · rename_i fresh
        cases taken
        have far : ∀ id promise, state.held id = some promise → ¬ isLocal promise.row = true := by
          intro id promise held near
          have free := kept.jobs id promise job held
          rw [moving] at free
          exact free near
        have unnamed : ∀ other ∈ state.rows, other.id ≠ row.id := fun other inside same =>
          fresh (List.any_eq_true.mpr ⟨other, inside, decide_eq_true same⟩)
        exact (kept.withOwn unnamed artifact onNode far).setJob far
    · cases taken
  | mark job locked =>
    dsimp only at taken
    split at taken
    · rename_i id own
      cases taken
      cases locked with
      | true => exact kept.setState fun _ _ => rfl
      | false =>
        refine (kept.giveUp id).setState fun promise held => ?_
        unfold State.giveUp at held
        dsimp only at held
        rw [update_self] at held
        cases held
    · cases taken
  | dropLocal job =>
    dsimp only at taken
    split at taken
    · rename_i own moving
      cases taken
      have far : ∀ id promise, state.held id = some promise → ¬ isLocal promise.row = true := by
        intro id promise held near
        have free := kept.jobs id promise job held
        rw [moving] at free
        exact free near
      refine (kept.dropRows fun id promise held row _ _ store => ?_).setJob far
      rw [Bool.not_eq_true']
      unfold isLocal
      rw [store]
      exact Bool.not_eq_true _ ▸ far id promise held
    · cases taken
  | destroy job =>
    dsimp only at taken
    split at taken
    · rename_i own clearing
      cases taken
      refine (kept.removeArchives fun id promise archive held is => ?_).setJob
        fun _ _ _ => not_false
      have free := kept.jobs id promise job held
      rw [clearing] at free
      refine decide_eq_true fun onNode => free ?_
      unfold archiveOf at is
      unfold Takes isLocal
      split at is
      · cases is
      · rename_i near
        rw [near]
        rfl
      · obtain ⟨name, -, same⟩ := map_eq_some_iff.mp is
        rw [← same] at onNode
        cases onNode
    · cases taken
  | leave job =>
    cases taken
    exact kept.setJob fun _ _ _ => not_false

end

/-- Rows and archives nobody is working on. Every locked backup counts as promised. -/
def beginning (rows : List BackupRow) (archives : List (Place × String)) : State where
  rows := rows
  archives := archives
  jobs := fun _ => .idle
  held := fun id => (rows.find? fun row => row.id = id && row.state = .locked).map fun row =>
    ⟨row, (archiveOf row).any fun archive => archives.contains archive⟩
  reported := fun id => rows.any fun row => row.id = id && row.state = .locked

theorem kept_beginning {rows : List BackupRow} (archives : List (Place × String))
    (ids : (rows.map BackupRow.id).Nodup) : Kept (beginning rows archives) := by
  have promised : ∀ id promise, (beginning rows archives).held id = some promise →
      ∃ row ∈ rows, (row.id = id ∧ row.state = .locked) ∧
        promise = ⟨row, (archiveOf row).any fun archive => archives.contains archive⟩ := by
    intro id promise held
    obtain ⟨row, found, same⟩ := map_eq_some_iff.mp held
    have hit := find?_some found
    rw [Bool.and_eq_true, decide_eq_true_eq, decide_eq_true_eq] at hit
    exact ⟨row, mem_of_find?_eq_some found, hit, same.symm⟩
  refine ⟨ids, fun id promise held => ?_, fun id promise held there archive is => ?_,
    fun _ _ _ _ => not_false⟩
  · obtain ⟨row, member, ⟨named, locked⟩, rfl⟩ := promised id promise held
    exact ⟨named, row, member, named, locked, rfl, rfl⟩
  · obtain ⟨row, -, -, rfl⟩ := promised id promise held
    dsimp only at there is
    rw [is, any_some] at there
    exact contains_iff_mem.mp there

/-- While every lock lands on a backup that nobody has chosen for removal, a backup whose lock was
recorded and reported stays, row and archive, as long as it is locked. -/
theorem locked_backups_stay (rows : List BackupRow) (archives : List (Place × String))
    (ids : (rows.map BackupRow.id).Nodup) (events : List Event)
    (notTaken : Systems.Meets step NotTaken (beginning rows archives) events) :
    Systems.Along step Stay (beginning rows archives) events :=
  (Systems.along_of_meets (fun _ _ _ kept notTaken taken => kept_step kept notTaken taken)
    (kept_beginning archives ids) notTaken).mono fun _ kept => kept.stay

/-! ### A lock beside a deletion -/

/-- A complete backup on the node. -/
def doneBackup : BackupRow :=
  (Progress.freshRow 0 Progress.worldBackup 0).apply
    (Progress.recordOf Progress.worldArchive .local_ 5)

def oneBackup : State := beginning [doneBackup] [(.node, "world-manual-09-11")]

/-- The backup is locked, and a deletion refused. -/
def lockedThenDeleted : List Event := [.readLock 0 0 true, .writeLock 0, .report 0, .readDelete 1 0]

theorem locked_backups_stay_lockedThenDeleted :
    Systems.Along step Stay oneBackup lockedThenDeleted := by
  refine locked_backups_stay _ _ (by decide) lockedThenDeleted ?_
  refine Systems.meets_cons trivial rfl ?_
  refine Systems.meets_cons (fun id _ row _ _ other => ?_) rfl ?_
  · by_cases same : other = 0
    · rw [same]
      exact not_false
    · unfold State.setJob
      dsimp only
      rw [update_of_ne same]
      exact not_false
  refine Systems.meets_cons trivial rfl ?_
  refine ⟨fun row member _ unlocked => ?_, fun next taken => trivial⟩
  obtain rfl := mem_singleton.mp member
  exact absurd rfl unlocked

/-- The lock lands between the deletion's look and its removals. -/
def deletedWhileLocked : List Event := [.readDelete 0 0, .readLock 1 0 true, .writeLock 1,
  .report 1, .removeArchive 0, .delete 0]

theorem locked_backup_is_gone :
    (Systems.run step oneBackup deletedWhileLocked).map (fun last =>
      ((last.held 0).isSome, last.reported 0, last.rows)) = some (true, true, []) := by
  decide +kernel

/-- A backup that was reported as locked has been removed. -/
theorem locked_backup_is_removed :
    ¬ ∀ events, Systems.Along step Stay oneBackup events := by
  intro always
  obtain ⟨last, run, all⟩ := map_eq_some_iff.mp locked_backup_is_gone
  obtain ⟨held, both⟩ := Prod.mk.inj all
  obtain ⟨reported, rows⟩ := Prod.mk.inj both
  obtain ⟨promise, is⟩ := isSome_iff_exists.mp held
  have stay : Stay last := Systems.along_last (always deletedWhileLocked) run
  obtain ⟨⟨row, member, -⟩, -⟩ := stay 0 promise is reported
  rw [rows] at member
  cases member

end Geeboard.Panel.Locked
