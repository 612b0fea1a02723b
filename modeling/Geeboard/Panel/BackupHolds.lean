/-
This file is about the hold of a backup on its server, and whether it is given back.

A backup takes the server by one statement, makes its row, and only then enters the
block whose handler gives the server back. In the handler the row is marked as failed
before the state is written, and the row may be gone by then: a deletion does not ask
whether a backup is still running. Whatever throws in between leaves the server held,
with a timer that goes on saying so.
-/

import Geeboard.Panel.UsableBackups

namespace Geeboard.Panel.Holding

open Option Function

/-- How far a backup is: it has the server, it is in the block that is caught, it has given the
server back, it is in the handler, has marked the row there, or has returned or thrown. -/
inductive Phase where
  | idle | claimed | trying | given | failing | marked | ended
  deriving DecidableEq, Repr

/-- The rows with the requests that write them, the backup that has the server, and how far each
backup is. -/
structure State where
  backups : Progress.State
  claimedBy : Option Nat
  phase : Nat → Phase

/-- A backup's steps, in the order in which it takes them; it fails within the block; and any step
of a lock, a deletion or retention. -/
inductive Event where
  | refuse (job : Nat)
  | claim (job : Nat) (ends : Fault)
  | create (job : Nat) (id : BackupId) (backup : NewBackup) (createdAt : Time) (ends : Fault)
  | archive (job : Nat) (result : ArchiveResult)
  | record (job : Nat) (kept : BackupStore) (durationMs : Nat) (ends : Fault)
  | giveBack (job : Nat) (ends : Fault)
  | finish (job : Nat)
  | fail (job : Nat)
  | markFailed (job : Nat) (said : String) (left : Bool) (ends : Fault)
  | giveBackAgain (job : Nat) (ends : Fault)
  | other (event : Progress.Event)

/-- The steps of locks, deletions and retention. -/
def isOther : Progress.Event → Bool
  | .readLock _ _ _ | .writeLock _ | .readDelete _ _ | .delete _ | .choose _ _ _ | .prune _
  | .pass _ => true
  | _ => false

/-- Where a backup is after a statement: its next phase when it is done, and else another one. -/
def onward (ends : Fault) (next other : Phase) : Phase :=
  match ends with
  | .done => next
  | _ => other

def State.to_ (state : State) (job : Nat) (phase : Phase) : State :=
  { state with phase := Function.update state.phase job phase }

/-- Whether the row a backup has made is still there. -/
def hasRow (backups : Progress.State) (job : Nat) : Bool :=
  match (backups.jobs job).taking with
  | some (id, _) => backups.rows.any fun row => row.id = id
  | none => false

/-- The state of the server is written by its id. -/
def State.release (state : State) (ends : Fault) : State :=
  if ends.takesEffect then { state with claimedBy := none } else state

def step (state : State) : Event → Option State
  | .refuse job =>
    match state.phase job with
    | .idle => some (state.to_ job .ended)
    | _ => none
  | .claim job ends =>
    match state.phase job, state.claimedBy with
    | .idle, some _ => some (state.to_ job .ended)
    | .idle, none =>
      let taken := if ends.takesEffect then { state with claimedBy := some job } else state
      some (taken.to_ job (onward ends .claimed .ended))
    | _, _ => none
  | .create job id backup createdAt ends =>
    match state.phase job, state.backups.jobs job with
    | .claimed, .idle =>
      if ends.takesEffect then
        (Progress.step state.backups (.create job id backup createdAt)).map fun backups =>
          { state with backups := backups }.to_ job (onward ends .trying .ended)
      else some (state.to_ job .ended)
    | _, _ => none
  | .archive job result =>
    match state.phase job with
    | .trying =>
      (Progress.step state.backups (.archive job result)).map fun backups =>
        { state with backups := backups }
    | _ => none
  | .record job kept durationMs ends =>
    match state.phase job with
    | .trying =>
      if hasRow state.backups job && ends.takesEffect then
        (Progress.step state.backups (.record job kept durationMs)).map fun backups =>
          { state with backups := backups }.to_ job (onward ends .trying .failing)
      else some (state.to_ job .failing)
    | _ => none
  | .giveBack job ends =>
    match state.phase job, state.backups.jobs job with
    | .trying, .recorded _ _ =>
      some ((state.release ends).to_ job (onward ends .given .failing))
    | _, _ => none
  | .finish job =>
    match state.phase job with
    | .given => some (state.to_ job .ended)
    | _ => none
  | .fail job =>
    match state.phase job with
    | .trying | .given => some (state.to_ job .failing)
    | _ => none
  | .markFailed job said left ends =>
    match state.phase job with
    | .failing =>
      if hasRow state.backups job && ends.takesEffect then
        (Progress.step state.backups (.fail job said left)).map fun backups =>
          { state with backups := backups }.to_ job (onward ends .marked .ended)
      else some (state.to_ job .ended)
    | _ => none
  | .giveBackAgain job ends =>
    match state.phase job with
    | .marked => some ((state.release ends).to_ job .ended)
    | _ => none
  | .other event =>
    if isOther event then
      (Progress.step state.backups event).map fun backups => { state with backups := backups }
    else none

/-- A backup that has returned or thrown does not have the server any more, and its timer, which
writes only while the server is held by its claim, finds nothing to renew. -/
def NotLeftHeld (state : State) : Prop :=
  ∀ job, state.phase job = .ended → state.claimedBy ≠ some job

/-- A claim that takes a free server is answered; the row is made; and in the handler, while the
backup has the server, its row is there and marked, and the state is written. -/
def GivenBack (state : State) : Event → Prop
  | .claim job ends =>
    state.phase job = .idle → state.claimedBy = none → ends ≠ .doneThenFailed
  | .create job _ _ _ ends =>
    state.phase job = .claimed → state.backups.jobs job = .idle → state.claimedBy = some job →
      ends = .done
  | .markFailed job _ _ ends =>
    state.phase job = .failing → state.claimedBy = some job →
      hasRow state.backups job = true ∧ ends = .done
  | .giveBackAgain job ends =>
    state.phase job = .marked → state.claimedBy = some job → ends.takesEffect = true
  | _ => True

/-- A backup that has not taken the server yet, or has given it back, does not have it. -/
def Kept (state : State) : Prop :=
  ∀ job, state.phase job = .idle ∨ state.phase job = .given → state.claimedBy ≠ some job

section

variable {state next : State}

theorem notLeftHeld_to (notLeft : NotLeftHeld state) (job : Nat) (phase : Phase) :
    NotLeftHeld (state.to_ job phase) ↔ (phase = .ended → state.claimedBy ≠ some job) := by
  unfold State.to_
  constructor
  · intro after is
    exact after job ((update_self _ _ _).trans is)
  · intro own other is
    dsimp only at is ⊢
    by_cases same : other = job
    · rw [same, update_self] at is
      rw [same]
      exact own is
    · rw [update_of_ne same] at is
      exact notLeft other is

theorem Kept.to_ (kept : Kept state) (job : Nat) {phase : Phase}
    (own : phase = .idle ∨ phase = .given → state.claimedBy ≠ some job) :
    Kept (state.to_ job phase) := by
  intro other is
  unfold State.to_ at is ⊢
  dsimp only at is ⊢
  by_cases same : other = job
  · rw [same, update_self] at is
    rw [same]
    exact own is
  · rw [update_of_ne same] at is
    exact kept other is

/-- A phase in which the backup may still have the server. -/
theorem Kept.onward (kept : Kept state) (job : Nat) {phase : Phase} (idle : phase ≠ .idle)
    (given : phase ≠ .given) : Kept (state.to_ job phase) :=
  kept.to_ job fun is => absurd is (not_or.mpr ⟨idle, given⟩)

theorem Kept.release (kept : Kept state) (ends : Fault) : Kept (state.release ends) := by
  unfold State.release
  split
  · rintro job - ⟨⟩
  · exact kept

theorem NotLeftHeld.release (notLeft : NotLeftHeld state) (ends : Fault) :
    NotLeftHeld (state.release ends) := by
  unfold State.release
  split
  · rintro job - ⟨⟩
  · exact notLeft

theorem claimedBy_release (ends : Fault) (effect : ends.takesEffect = true) (job : Nat) :
    (state.release ends).claimedBy ≠ some job := by
  unfold State.release
  rw [if_pos effect]
  rintro ⟨⟩

theorem onward_eq_ended {ends : Fault} {phase : Phase} (goes : phase ≠ .ended) :
    onward ends phase .ended = .ended ↔ ends ≠ .done := by
  cases ends with
  | done => exact iff_of_false goes fun other => other rfl
  | failed | doneThenFailed => exact iff_of_true rfl nofun

theorem onward_cases (ends : Fault) (phase other : Phase) :
    onward ends phase other = phase ∧ ends = .done ∨ onward ends phase other = other := by
  cases ends with
  | done => exact .inl ⟨rfl, rfl⟩
  | failed | doneThenFailed => exact .inr rfl

theorem onward_ne {ends : Fault} {phase other avoided : Phase} (first : phase ≠ avoided)
    (second : other ≠ avoided) : onward ends phase other ≠ avoided := by
  rcases onward_cases ends phase other with ⟨is, -⟩ | is
  · rw [is]
    exact first
  · rw [is]
    exact second

theorem kept_step {event : Event} (kept : Kept state) (taken : step state event = some next) :
    Kept next := by
  unfold step at taken
  cases event with
  | refuse job =>
    dsimp only at taken
    split at taken
    · cases taken
      exact kept.onward job nofun nofun
    · cases taken
  | claim job ends =>
    dsimp only at taken
    split at taken
    · cases taken
      exact kept.onward job nofun nofun
    · rename_i idle free
      cases taken
      intro other is
      unfold State.to_ at is ⊢
      dsimp only at is ⊢
      by_cases same : other = job
      · rw [same, update_self] at is
        exact absurd is (not_or.mpr ⟨onward_ne nofun nofun,
          onward_ne nofun nofun⟩)
      · split
        · exact fun equal => same (some.inj equal).symm
        · rw [free]
          rintro ⟨⟩
    · cases taken
  | create job id backup createdAt ends =>
    dsimp only at taken
    split at taken
    · split at taken
      · obtain ⟨backups, -, made⟩ := map_eq_some_iff.mp taken
        cases made
        have same : Kept { state with backups := backups } := kept
        exact same.onward job (onward_ne nofun nofun)
          (onward_ne nofun nofun)
      · cases taken
        exact kept.onward job nofun nofun
    · cases taken
  | archive job result =>
    dsimp only at taken
    split at taken
    · obtain ⟨backups, -, made⟩ := map_eq_some_iff.mp taken
      cases made
      exact kept
    · cases taken
  | record job kept_ durationMs ends =>
    dsimp only at taken
    split at taken
    · split at taken
      · obtain ⟨backups, -, made⟩ := map_eq_some_iff.mp taken
        cases made
        have same : Kept { state with backups := backups } := kept
        exact same.onward job (onward_ne nofun nofun)
          (onward_ne nofun nofun)
      · cases taken
        exact kept.onward job nofun nofun
    · cases taken
  | giveBack job ends =>
    dsimp only at taken
    split at taken
    · cases taken
      refine (kept.release ends).to_ job fun is => ?_
      rcases onward_cases ends .given .failing with ⟨-, done⟩ | failing
      · exact claimedBy_release ends (by rw [done]; rfl) job
      · rw [failing] at is
        exact absurd is (by decide)
    · cases taken
  | finish job =>
    dsimp only at taken
    split at taken
    · cases taken
      exact kept.onward job nofun nofun
    · cases taken
  | fail job =>
    dsimp only at taken
    split at taken
    · cases taken
      exact kept.onward job nofun nofun
    · cases taken
      exact kept.onward job nofun nofun
    · cases taken
  | markFailed job said left ends =>
    dsimp only at taken
    split at taken
    · split at taken
      · obtain ⟨backups, -, made⟩ := map_eq_some_iff.mp taken
        cases made
        have same : Kept { state with backups := backups } := kept
        exact same.onward job (onward_ne nofun nofun)
          (onward_ne nofun nofun)
      · cases taken
        exact kept.onward job nofun nofun
    · cases taken
  | giveBackAgain job ends =>
    dsimp only at taken
    split at taken
    · cases taken
      exact (kept.release ends).onward job nofun nofun
    · cases taken
  | other event =>
    dsimp only at taken
    split at taken
    · obtain ⟨backups, -, made⟩ := map_eq_some_iff.mp taken
      cases made
      exact kept
    · cases taken

/-- A step that goes on to a phase in which the backup has not ended. -/
theorem NotLeftHeld.onward (notLeft : NotLeftHeld state) (job : Nat) {phase : Phase}
    (goes : phase ≠ .ended) : NotLeftHeld (state.to_ job phase) :=
  (notLeftHeld_to notLeft job phase).mpr fun is => absurd is goes

theorem notLeftHeld_step {event : Event} (kept : Kept state) (notLeft : NotLeftHeld state)
    (taken : step state event = some next) : NotLeftHeld next ↔ GivenBack state event := by
  unfold step at taken
  unfold GivenBack
  cases event with
  | refuse job =>
    dsimp only at taken
    split at taken
    · rename_i idle
      cases taken
      exact iff_of_true ((notLeftHeld_to notLeft job _).mpr fun _ => kept job (.inl idle)) trivial
    · cases taken
  | claim job ends =>
    dsimp only at taken ⊢
    split at taken
    · rename_i idle holder
      cases taken
      refine iff_of_true ((notLeftHeld_to notLeft job _).mpr fun _ => kept job (.inl idle)) ?_
      intro _ free
      rw [holder] at free
      cases free
    · rename_i idle free
      cases taken
      rw [imp_iff_right idle, imp_iff_right free]
      by_cases effect : ends.takesEffect = true
      · rw [if_pos effect]
        have others : ∀ other, other ≠ job →
            ({ state with claimedBy := some job } : State).claimedBy ≠ some other :=
          fun other different same => different (some.inj same).symm
        unfold NotLeftHeld State.to_
        dsimp only
        constructor
        · rintro after rfl
          exact after job (update_self _ _ _) rfl
        · intro lost other ended
          by_cases same : other = job
          · rw [same, update_self, onward_eq_ended (by rintro ⟨⟩)] at ended
            cases ends with
            | done => exact absurd rfl ended
            | failed => cases effect
            | doneThenFailed => exact absurd rfl lost
          · exact others other same
      · rw [if_neg effect]
        refine iff_of_true ((notLeftHeld_to notLeft job _).mpr fun _ => ?_) ?_
        · rw [free]
          rintro ⟨⟩
        · rintro rfl
          exact effect rfl
    · rename_i other
      cases taken
  | create job id backup createdAt ends =>
    dsimp only at taken ⊢
    split at taken
    · rename_i claimed idle
      rw [imp_iff_right claimed, imp_iff_right idle]
      split at taken
      · obtain ⟨backups, -, made⟩ := map_eq_some_iff.mp taken
        cases made
        have same : NotLeftHeld { state with backups := backups } := notLeft
        rw [notLeftHeld_to same, onward_eq_ended (by rintro ⟨⟩)]
        exact not_imp_not
      · rename_i noEffect
        cases taken
        rw [notLeftHeld_to notLeft, imp_iff_right rfl]
        refine ⟨fun free held => absurd held free, fun done held => ?_⟩
        rw [done held] at noEffect
        exact noEffect rfl
    · cases taken
  | archive job result =>
    dsimp only at taken
    split at taken
    · obtain ⟨backups, -, made⟩ := map_eq_some_iff.mp taken
      cases made
      exact iff_of_true notLeft trivial
    · cases taken
  | record job kept_ durationMs ends =>
    dsimp only at taken
    split at taken
    · split at taken
      · obtain ⟨backups, -, made⟩ := map_eq_some_iff.mp taken
        cases made
        have same : NotLeftHeld { state with backups := backups } := notLeft
        exact iff_of_true (same.onward job (onward_ne nofun nofun)) trivial
      · cases taken
        exact iff_of_true (notLeft.onward job nofun) trivial
    · cases taken
  | giveBack job ends =>
    dsimp only at taken
    split at taken
    · cases taken
      exact iff_of_true ((notLeft.release ends).onward job
        (onward_ne nofun nofun)) trivial
    · cases taken
  | finish job =>
    dsimp only at taken
    split at taken
    · rename_i given
      cases taken
      exact iff_of_true ((notLeftHeld_to notLeft job _).mpr fun _ => kept job (.inr given)) trivial
    · cases taken
  | fail job =>
    dsimp only at taken
    split at taken
    · cases taken
      exact iff_of_true (notLeft.onward job nofun) trivial
    · cases taken
      exact iff_of_true (notLeft.onward job nofun) trivial
    · cases taken
  | markFailed job said left ends =>
    dsimp only at taken ⊢
    split at taken
    · rename_i failing
      rw [imp_iff_right failing]
      split at taken
      · rename_i both
        obtain ⟨there, -⟩ := Bool.and_eq_true_iff.mp both
        obtain ⟨backups, -, made⟩ := map_eq_some_iff.mp taken
        cases made
        have same : NotLeftHeld { state with backups := backups } := notLeft
        rw [notLeftHeld_to same, onward_eq_ended (by rintro ⟨⟩)]
        refine not_imp_not.trans (imp_congr_right fun _ => ?_)
        exact (and_iff_right there).symm
      · rename_i missed
        cases taken
        rw [notLeftHeld_to notLeft, imp_iff_right rfl]
        refine ⟨fun free held => absurd held free, fun both held => missed ?_⟩
        obtain ⟨there, done⟩ := both held
        rw [there, done]
        rfl
    · cases taken
  | giveBackAgain job ends =>
    dsimp only at taken ⊢
    split at taken
    · rename_i marked
      cases taken
      rw [imp_iff_right marked, notLeftHeld_to (notLeft.release ends), imp_iff_right rfl]
      by_cases effect : ends.takesEffect = true
      · exact iff_of_true (claimedBy_release ends effect job) fun _ => effect
      · unfold State.release
        rw [if_neg effect]
        exact ⟨fun free held => absurd held free, fun takes held => effect (takes held)⟩
    · cases taken
  | other event =>
    dsimp only at taken
    split at taken
    · obtain ⟨backups, -, made⟩ := map_eq_some_iff.mp taken
      cases made
      exact iff_of_true notLeft trivial
    · cases taken

theorem givenBack_idle {event : Event} (idle : step state event = none) :
    GivenBack state event := by
  unfold step at idle
  unfold GivenBack
  cases event with
  | claim job ends =>
    intro phase free
    dsimp only at idle
    rw [phase, free] at idle
    cases idle
  | create job id backup createdAt ends =>
    intro phase job_ _
    dsimp only at idle
    rw [phase, job_] at idle
    dsimp only at idle
    split at idle
    · unfold Progress.step at idle
      dsimp only at idle
      rw [job_] at idle
      cases idle
    · cases idle
  | markFailed job said left ends =>
    intro phase _
    dsimp only at idle
    rw [phase] at idle
    dsimp only at idle
    split at idle
    · rename_i both
      obtain ⟨there, -⟩ := Bool.and_eq_true_iff.mp both
      unfold hasRow at there
      unfold Progress.step at idle
      dsimp only at idle
      split at there
      · rename_i id archive taking
        rw [taking] at idle
        cases idle
      · cases there
    · cases idle
  | giveBackAgain job ends =>
    intro phase
    dsimp only at idle
    rw [phase] at idle
    cases idle
  | _ => trivial

end

/-- Nobody has the server, and nobody is working on its backups. -/
def beginning (rows : List BackupRow) (written : List ArchiveResult) : State :=
  ⟨⟨rows, written, fun _ => .idle⟩, none, fun _ => .idle⟩

/-- In every state of a run no backup that has returned or thrown has the server, just when every
claim that takes it is answered, every row is made, and in the handler of a backup that still has
it the row is there, is marked, and the state is written. -/
theorem backups_give_back_iff (rows : List BackupRow) (written : List ArchiveResult)
    (events : List Event) :
    Systems.Along step NotLeftHeld (beginning rows written) events ↔
      Systems.Meets step GivenBack (beginning rows written) events :=
  Systems.along_iff_meets (fun _ _ _ kept _ _ taken => kept_step kept taken)
    (fun _ _ _ kept holds taken => notLeftHeld_step kept holds taken)
    (fun _ _ idle => givenBack_idle idle) (by rintro job - ⟨⟩) (by rintro job ⟨⟩)

/-- A backup of a server that is deleted while it is being taken: making the archive fails
afterwards. -/
def deletedWhileTaken : List Event := [.claim 0 .done, .create 0 0 Progress.worldBackup 0 .done,
  .other (.readDelete 1 0), .other (.delete 1), .fail 0, .markFailed 0 "no archive" false .done]

theorem ended_with_server :
    (Systems.run step (beginning [] []) deletedWhileTaken).map (fun last =>
      (last.phase 0, last.claimedBy)) = some (.ended, some 0) := by
  decide +kernel

/-- A backup has ended and the server is still held for it. -/
theorem backup_leaves_hold :
    ¬ ∀ events, Systems.Along step NotLeftHeld (beginning [] []) events := by
  intro always
  obtain ⟨last, run, both⟩ := map_eq_some_iff.mp ended_with_server
  obtain ⟨ended, held⟩ := Prod.mk.inj both
  have free : NotLeftHeld last := Systems.along_last (always deletedWhileTaken) run
  exact free 0 ended held

end Geeboard.Panel.Holding
