/-
This file is the budget of the watchdog over whole runs.

The row counts the attempts and the log remembers what was done. A pass starts the
server and writes afterwards what it decided on a row it read before, so that the
row may have been reset in between. Where it says what was decided on all the same,
every start that is not the machine's doing is paid for by the write that follows
it and happens only below the ceiling; and a watchdog that gave up found the ceiling
reached, and nothing but a reset changes that.
-/

import Geeboard.Panel.BuildOps
import Geeboard.Panel.Recovery
import Geeboard.Systems.Steps

namespace Geeboard.Panel

open List Option

/-! ### What is asked of a run -/

/-- What was done since the last reset. -/
def sinceReset (log : List (Option WatchdogAct)) : List WatchdogAct :=
  (log.takeWhile Option.isSome).filterMap id

/-- A restart for a crash, or for a stop that nothing explains. -/
def WatchdogAct.counted : WatchdogAct → Bool
  | .restarted kind => kind != .machine
  | _ => false

/-- A restart of the kind. -/
def WatchdogAct.restartedFor (kind : DownKind) : WatchdogAct → Bool
  | .restarted other => other == kind
  | _ => false

/-- The budget holds: the count is below the ceiling, the restarts since the last reset are, a
restart that the machine is behind leaves the count alone, and once given up on for some kind of
going down the server is not restarted for that kind. -/
structure Budget (watched : Watched) : Prop where
  attempts : watched.row.restartAttempts ≤ watched.row.maxRestarts
  restarts : (sinceReset watched.log).countP WatchdogAct.counted ≤ watched.row.maxRestarts
  machine : ∀ before after, some (.recorded .machine before after) ∈ watched.log → after = before
  gaveUp : ∀ later earlier kind, sinceReset watched.log = later ++ .gaveUp kind :: earlier →
    later.countP (WatchdogAct.restartedFor kind) = 0

/-! ### What a pass relies on -/

/-- The pass has started the server for a crash, or for a stop that nothing explains, and has not
written it yet. -/
def Pass.owes (pass : Pass) : Bool :=
  match pass.stage with
  | .started kind _ => kind != .machine
  | _ => false

def Watched.owed (watched : Watched) (number : Nat) : Bool :=
  (watched.pass number).any Pass.owes

/-- What the pass goes by in its next step is so: that there is room below the ceiling for a start
that is counted, and no other one to be written; that the attempts are the ones it read when it
writes them; that there is no room when it gives up. -/
def Pass.RightAbout (watched : Watched) (pass : Pass) : Prop :=
  let row := watched.row
  match pass.stage with
  | .giving kind _ => kind = .outOfMemory ∨ row.maxRestarts ≤ row.restartAttempts
  | .starting kind _ => kind = .machine ∨ (row.restartAttempts < row.maxRestarts ∧
      ∀ entry ∈ watched.passes, entry.2.owes = false)
  | .started kind _ => row.restartAttempts = pass.read.restartAttempts ∧
      (kind = .machine ∨ row.restartAttempts < row.maxRestarts)
  | .unnoted _ attempt => row.restartAttempts = attempt
  | _ => True

/-- Nothing comes between a decision and what is done about it: what a pass goes by is still so
where it starts the server and where it makes its last write, and no write that is owed is lost. -/
def Undisturbed (watched : Watched) : WatchEvent → Prop
  | .start number => ∀ pass, watched.pass number = some pass → pass.RightAbout watched
  | .write number _ _ _ => ∀ pass, watched.pass number = some pass → pass.RightAbout watched
  | .lose number => watched.owed number = false
  | _ => True

/-! ### What a pass has decided -/

/-- What a start is to cost: nothing when the machine is behind it, else one attempt more than were
read. -/
def Priced (read : ServerRow) (kind : DownKind) (attempt : Nat) : Prop :=
  (kind = .machine ∧ attempt = read.restartAttempts) ∨
    ((kind = .crash ∨ kind = .stop) ∧ attempt = read.restartAttempts + 1)

/-- A pass goes by the attempts it read. -/
def Pass.Sound (pass : Pass) : Prop :=
  match pass.stage with
  | .crashed attempts _ => attempts = pass.read.restartAttempts
  | .giving kind _ => kind ≠ .machine
  | .starting kind attempt => Priced pass.read kind attempt
  | .started kind attempt => Priced pass.read kind attempt
  | _ => True

section

variable {watched : Watched} {number : Nat} {read : ServerRow}

/-- Attempts are forgiven only to a server that runs. -/
theorem forgiven_running {report : NodeReport} {now : Time}
    (forgave : forgiven read report now = true) : observedState read report = .running := by
  unfold forgiven shouldForgiveAttempts at forgave
  split at forgave
  · simp only [Bool.and_eq_true, beq_iff_eq] at forgave
    exact forgave.1.2
  · cases forgave

/-- What a pass goes on with after its look is sound, and nothing is owed by it. -/
theorem sound_afterObservation {report : NodeReport} {now : Time} {stage : Stage}
    (goes : afterObservation read report now = some stage) :
    Pass.Sound ⟨read, stage⟩ ∧ Pass.owes ⟨read, stage⟩ = false := by
  unfold afterObservation at goes
  split at goes
  · rename_i crashed
    cases goes
    refine ⟨if_neg fun forgave => ?_, rfl⟩
    rw [forgiven_running forgave] at crashed
    cases crashed
  split at goes
  · cases goes
    exact ⟨trivial, rfl⟩
  split at goes
  · dsimp only at goes
    split at goes
    · cases goes
      exact ⟨trivial, rfl⟩
    · cases goes
      exact ⟨trivial, rfl⟩
  · cases goes

/-- A decision that is priced and does not give up on the machine's account is followed soundly. -/
theorem sound_follow {kind : DownKind} {decision : RecoveryDecision} {stage : Stage}
    (gaveUp : ∀ reason, decision = .giveUp reason → kind ≠ .machine)
    (restarted : ∀ attempt reason, decision = .restart attempt reason → Priced read kind attempt)
    (goes : follow read kind decision = some stage) :
    Pass.Sound ⟨read, stage⟩ ∧ Pass.owes ⟨read, stage⟩ = false := by
  cases decision with
  | ignore => cases goes
  | wait =>
    simp only [follow] at goes
    split at goes
    · cases goes
      exact ⟨trivial, rfl⟩
    · cases goes
  | giveUp reason =>
    cases goes
    exact ⟨gaveUp reason rfl, rfl⟩
  | restart attempt reason =>
    cases goes
    exact ⟨restarted attempt reason rfl, rfl⟩

theorem sound_recover {report : NodeReport} {now : Time} {stage : Stage}
    (goes : recover read report now read.restartAttempts = some stage) :
    Pass.Sound ⟨read, stage⟩ ∧ Pass.owes ⟨read, stage⟩ = false := by
  refine sound_follow ?_ ?_ goes
  · intro reason decided
    split
    · exact fun same => DownKind.noConfusion same
    · exact fun same => DownKind.noConfusion same
  · intro attempt reason decided
    obtain ⟨counted, below, notOom⟩ := of_decideRecovery_restart decided
    exact .inr ⟨.inl (if_neg (Bool.eq_false_iff.mp notOom)), counted⟩

theorem sound_recoverAfterStop {evidence : StopEvidence} {now : Time} {stage : Stage}
    (goes : recoverAfterStop read now evidence = some stage) :
    Pass.Sound ⟨read, stage⟩ ∧ Pass.owes ⟨read, stage⟩ = false := by
  refine sound_follow ?_ ?_ goes
  · intro reason decided
    obtain ⟨unexplained, spent⟩ := of_decideAfterStop_giveUp decided
    rw [if_pos unexplained]
    exact fun same => DownKind.noConfusion same
  · intro attempt reason decided
    rcases of_decideAfterStop_restart decided with ⟨explained, same⟩ | ⟨unexplained, counted, below⟩
    · exact .inl ⟨if_neg explained, same⟩
    · exact .inr ⟨.inr (if_pos unexplained), counted⟩

/-! ### The log -/

@[simp] theorem sinceReset_reset (log : List (Option WatchdogAct)) :
    sinceReset (none :: log) = [] := rfl

@[simp] theorem sinceReset_act (act : WatchdogAct) (log : List (Option WatchdogAct)) :
    sinceReset (some act :: log) = act :: sinceReset log := rfl

/-- What the log says of the row's count: the starts since the last reset are at most the attempts,
but for one whose write is owed; the ceiling was reached where the watchdog gave up for want of
attempts; and nothing is restarted for what it gave up on. -/
structure Books (row : ServerRow) (log : List (Option WatchdogAct)) (owed : Prop) : Prop where
  attempts : row.restartAttempts ≤ row.maxRestarts
  restarts : (sinceReset log).countP WatchdogAct.counted ≤ row.maxRestarts
  count : (sinceReset log).countP WatchdogAct.counted ≤ row.restartAttempts ∨
    ((sinceReset log).countP WatchdogAct.counted ≤ row.restartAttempts + 1 ∧ owed)
  machine : ∀ before after, some (.recorded .machine before after) ∈ log → after = before
  gaveUp : ∀ later earlier kind, sinceReset log = later ++ .gaveUp kind :: earlier →
    later.countP (WatchdogAct.restartedFor kind) = 0
  spent : ∀ kind, .gaveUp kind ∈ sinceReset log → kind = .outOfMemory ∨
    (kind ≠ .machine ∧ row.maxRestarts ≤ row.restartAttempts)
  noOutOfMemory : (sinceReset log).countP (WatchdogAct.restartedFor .outOfMemory) = 0

section Kept

variable {row after : ServerRow} {log : List (Option WatchdogAct)} {owed owes : Prop}

/-- After a reset there is nothing to answer for. -/
theorem Books.reset (books : Books row log owed) (attempts : after.restartAttempts = 0) :
    Books after (none :: log) owes := by
  refine ⟨?_, Nat.zero_le _, .inl (Nat.zero_le _), ?_, ?_, ?_, rfl⟩
  · exact attempts ▸ Nat.zero_le _
  · intro before later member
    rcases mem_cons.mp member with same | member
    · cases same
    · exact books.machine before later member
  · intro later earlier kind same
    rw [sinceReset_reset] at same
    cases later with
    | nil => cases same
    | cons act later => cases same
  · exact fun kind member => absurd member not_mem_nil

/-- A row with the same attempts and the same ceiling answers for the same log. -/
theorem Books.same (books : Books row log owed) (owing : owed → owes)
    (attempts : after.restartAttempts = row.restartAttempts)
    (ceiling : after.maxRestarts = row.maxRestarts) : Books after log owes := by
  obtain ⟨below, restarts, count, machine, gaveUp, spent, noOom⟩ := books
  refine ⟨?_, ?_, ?_, machine, gaveUp, ?_, noOom⟩
  · rw [attempts, ceiling]
    exact below
  · rw [ceiling]
    exact restarts
  · rw [attempts]
    exact count.imp_right fun more => ⟨more.1, owing more.2⟩
  · intro kind member
    rw [attempts, ceiling]
    exact spent kind member

/-- An act that restarts nothing is put down as it is. -/
theorem Books.put {act : WatchdogAct} (books : Books row log owed)
    (uncounted : act.counted = false) (restartsNone : ∀ kind, act.restartedFor kind = false)
    (records : ∀ before later, act = .recorded .machine before later → later = before)
    (spent : ∀ kind, act = .gaveUp kind → kind = .outOfMemory ∨
      (kind ≠ .machine ∧ row.maxRestarts ≤ row.restartAttempts)) :
    Books row (some act :: log) owed := by
  have noMore : (sinceReset (some act :: log)).countP WatchdogAct.counted =
      (sinceReset log).countP WatchdogAct.counted := by
    rw [sinceReset_act, countP_cons_of_neg (by simp [uncounted])]
  refine ⟨books.attempts, noMore ▸ books.restarts, noMore ▸ books.count, ?_, ?_, ?_, ?_⟩
  · intro before later member
    rcases mem_cons.mp member with same | member
    · exact records before later (some.inj same).symm
    · exact books.machine before later member
  · intro later earlier kind same
    rw [sinceReset_act] at same
    cases later with
    | nil => rfl
    | cons first later =>
      obtain ⟨rfl, rest⟩ := cons.inj same
      rw [countP_cons_of_neg (by simp [restartsNone])]
      exact books.gaveUp later earlier kind rest
  · intro kind member
    rw [sinceReset_act] at member
    rcases mem_cons.mp member with same | member
    · exact spent kind same.symm
    · exact books.spent kind member
  · rw [sinceReset_act, countP_cons_of_neg (by simp [restartsNone])]
    exact books.noOutOfMemory

/-- A start is put down. When it is counted there is room for it, and its write is owed. -/
theorem Books.start {kind : DownKind} (books : Books row log owed)
    (possible : kind ≠ .outOfMemory) (room : kind = .machine ∨ row.restartAttempts < row.maxRestarts)
    (nothing : kind = .machine ∨ ¬ owed) (owing : kind = .machine ∨ owes)
    (still : owed → owes) : Books row (some (.restarted kind) :: log) owes := by
  have counted : (sinceReset (some (.restarted kind) :: log)).countP WatchdogAct.counted =
      (sinceReset log).countP WatchdogAct.counted + if kind = .machine then 0 else 1 := by
    rw [sinceReset_act, countP_cons]
    simp [WatchdogAct.counted]
  have count := books.count
  refine ⟨books.attempts, ?_, ?_, ?_, ?_, ?_, ?_⟩
  · rw [counted]
    split
    · exact books.restarts
    · rename_i other
      have below := room.resolve_left other
      have paid := count.resolve_right fun more => nothing.resolve_left other more.2
      omega
  · rw [counted]
    split
    · exact count.imp_right fun more => ⟨more.1, still more.2⟩
    · rename_i other
      have paid := count.resolve_right fun more => nothing.resolve_left other more.2
      exact .inr ⟨Nat.succ_le_succ paid, owing.resolve_left other⟩
  · intro before later member
    rcases mem_cons.mp member with same | member
    · cases same
    · exact books.machine before later member
  · intro later earlier other same
    rw [sinceReset_act] at same
    cases later with
    | nil => cases same
    | cons first later =>
      obtain ⟨rfl, rest⟩ := cons.inj same
      have gaveUp : .gaveUp other ∈ sinceReset log := by
        rw [rest]
        exact mem_append_right _ mem_cons_self
      have different : kind ≠ other := by
        rintro rfl
        obtain ⟨notMachine, spent⟩ := (books.spent kind gaveUp).resolve_left possible
        have below := room.resolve_left notMachine
        omega
      rw [countP_cons_of_neg (by simp [WatchdogAct.restartedFor, different])]
      exact books.gaveUp later earlier other rest
  · intro other member
    rw [sinceReset_act] at member
    rcases mem_cons.mp member with same | member
    · cases same
    · exact books.spent other member
  · rw [sinceReset_act, countP_cons_of_neg (by simp [WatchdogAct.restartedFor, possible])]
    exact books.noOutOfMemory

/-- One more attempt below the ceiling pays for what was owed. -/
theorem Books.pay (books : Books row log owed)
    (attempts : after.restartAttempts = row.restartAttempts + 1)
    (ceiling : after.maxRestarts = row.maxRestarts) (room : row.restartAttempts < row.maxRestarts) :
    Books after log owes := by
  obtain ⟨below, restarts, count, machine, gaveUp, spent, noOom⟩ := books
  refine ⟨?_, ?_, .inl ?_, machine, gaveUp, ?_, noOom⟩
  · omega
  · omega
  · rcases count with count | count
    · omega
    · omega
  · intro kind member
    refine (spent kind member).imp_right fun found => ⟨found.1, ?_⟩
    have spentFound := found.2
    omega

end Kept

/-! ### The invariant -/

/-- The books are kept, at most one pass owes a write, and every pass goes by what it read. -/
structure Paid (watched : Watched) : Prop where
  books : Books watched.row watched.log (∃ number, watched.owed number = true)
  one : ∀ number other, watched.owed number = true → watched.owed other = true → number = other
  sound : ∀ number pass, watched.pass number = some pass → pass.Sound

theorem Paid.budget (paid : Paid watched) : Budget watched :=
  ⟨paid.books.attempts, paid.books.restarts, paid.books.machine, paid.books.gaveUp⟩

theorem lookup_filter_ne {other : Nat} (passes : List (Nat × Pass)) (different : other ≠ number) :
    (passes.filter fun entry => entry.1 != number).lookup other = passes.lookup other := by
  induction passes with
  | nil => rfl
  | cons entry passes inductionHypothesis =>
    rw [filter_cons, lookup_cons]
    by_cases same : entry.1 = number
    · have apart : (other == entry.1) = false := by simpa [same] using different
      rw [if_neg (by simpa using same), inductionHypothesis, apart]
    · rw [if_pos (by simpa using same), lookup_cons, inductionHypothesis]

theorem Watched.pass_goOn (watched : Watched) (number other : Nat) (pass : Option Pass) :
    (watched.goOn number pass).pass other =
      if other = number then pass else watched.pass other := by
  unfold Watched.pass Watched.goOn
  rw [lookup_append]
  by_cases same : other = number
  · subst same
    rw [if_pos rfl]
    cases pass with
    | none =>
      have gone : (watched.passes.filter fun entry => entry.1 != other).lookup other = none := by
        refine lookup_eq_none_iff.mpr fun entry member => ?_
        exact bne_comm.trans (mem_filter.mp member).2
      exact gone
    | some pass =>
      show (List.lookup other [(other, pass)]).or _ = some pass
      rw [lookup_cons_self]
      rfl
  · rw [if_neg same, lookup_filter_ne watched.passes same]
    cases pass with
    | none => rfl
    | some pass =>
      show (List.lookup other [(number, pass)]).or _ = _
      have apart : (other == number) = false := by simpa using same
      rw [lookup_cons, apart]
      rfl

theorem Watched.owed_goOn (watched : Watched) (number other : Nat) (pass : Option Pass) :
    (watched.goOn number pass).owed other =
      if other = number then pass.any Pass.owes else watched.owed other := by
  unfold Watched.owed
  rw [Watched.pass_goOn]
  split
  · rfl
  · rfl

theorem sound_goOn {pass : Option Pass}
    (sound : ∀ other found, watched.pass other = some found → found.Sound)
    (goes : ∀ found, pass = some found → found.Sound) (other : Nat) (found : Pass)
    (same : (watched.goOn number pass).pass other = some found) : found.Sound := by
  rw [Watched.pass_goOn] at same
  split at same
  · exact goes found same
  · exact sound other found same

/-- A pass that owes nothing and goes on, or ends, owing nothing leaves what is owed as it is. -/
theorem owed_goOn_of_quiet {pass : Option Pass} (before : watched.owed number = false)
    (quiet : pass.any Pass.owes = false) (other : Nat) :
    (watched.goOn number pass).owed other = watched.owed other := by
  rw [Watched.owed_goOn]
  split
  · rename_i same
    rw [same, before, quiet]
  · rfl

/-- So it goes on as far as the books are concerned. -/
theorem Paid.goOn {pass : Option Pass} (paid : Paid watched) (before : watched.owed number = false)
    (quiet : pass.any Pass.owes = false) (goes : ∀ found, pass = some found → found.Sound) :
    Paid (watched.goOn number pass) := by
  have owed := owed_goOn_of_quiet before quiet
  refine ⟨paid.books.same ?_ rfl rfl, ?_, sound_goOn paid.sound goes⟩
  · rintro ⟨other, owes⟩
    exact ⟨other, (owed other).trans owes⟩
  · intro first second owesFirst owesSecond
    exact paid.one first second ((owed first).symm.trans owesFirst)
      ((owed second).symm.trans owesSecond)

theorem sound_none (pass : Pass) (same : none = some pass) : pass.Sound := by
  cases same

theorem Paid.ends (paid : Paid watched) (quiet : watched.owed number = false) :
    Paid (watched.goOn number none) :=
  paid.goOn quiet rfl sound_none

/-- What does not touch the attempts may be written at any time. -/
theorem Paid.put {change : ServerChange} (paid : Paid watched)
    (leaves : change.restartAttempts = none) (now : Time) : Paid (watched.put change now) := by
  refine ⟨paid.books.same id ?_ rfl, paid.one, paid.sound⟩
  show change.restartAttempts.getD _ = _
  rw [leaves]
  rfl

/-- A reset leaves the passes as they are. -/
theorem Paid.reset {row : ServerRow} (paid : Paid watched) (attempts : row.restartAttempts = 0) :
    Paid { watched with row := row, log := none :: watched.log } :=
  ⟨paid.books.reset attempts, paid.one, paid.sound⟩

theorem owed_of_stage {pass : Pass} (found : watched.pass number = some pass) :
    watched.owed number = pass.owes := by
  unfold Watched.owed
  rw [found]
  rfl

theorem owed_of_none_owes (nothing : ∀ entry ∈ watched.passes, entry.2.owes = false)
    (number : Nat) :
    watched.owed number = false := by
  unfold Watched.owed
  rcases found : watched.pass number with _ | pass
  · rfl
  · obtain ⟨before, later, passes, -⟩ := lookup_eq_some_iff.mp found
    exact nothing (number, pass) (by rw [passes]; exact mem_append_right _ mem_cons_self)

/-! ### Each event -/

theorem Paid.answered (paid : Paid watched) (quiet : watched.owed number = false)
    (report : NodeReport) (wrote : Time) :
    Paid (watched.answered number read report wrote) := by
  have goes {kept : Watched} {stage : Stage} (keeps : Paid kept) (still : kept.owed number = false)
      (sound : Pass.Sound ⟨read, stage⟩) (owes : Pass.owes ⟨read, stage⟩ = false) :
      Paid (kept.goOn number (some ⟨read, stage⟩)) :=
    keeps.goOn still owes fun found same => some.inj same ▸ sound
  unfold Watched.answered
  split
  · split
    · exact paid.ends quiet
    · exact goes paid quiet trivial rfl
  split
  · exact paid.ends quiet
  · exact goes (paid.put rfl wrote) quiet trivial rfl

theorem Paid.observe (paid : Paid watched) (quiet : watched.owed number = false)
    (report : NodeReport) (now wrote : Time) :
    Paid (watched.observe number read report now wrote) := by
  unfold Watched.observe
  split
  · have goesOn {kept : Watched} (keeps : Paid kept) (still : kept.owed number = false) :
        Paid (kept.goOn number ((afterObservation read report now).map (Pass.mk read))) := by
      rcases goes : afterObservation read report now with _ | stage
      · exact keeps.ends still
      · obtain ⟨sound, owes⟩ := sound_afterObservation goes
        exact keeps.goOn still owes fun found same => some.inj same ▸ sound
    rcases forgave : forgiven read report now with _ | _
    · refine goesOn (paid.put ?_ wrote) quiet
      unfold observation
      rw [forgave]
      rfl
    · refine goesOn (paid.reset ?_) quiet
      unfold observation
      rw [forgave]
      rfl
  · exact paid.ends quiet

/-- A start that the machine is behind is called: what is owed stays as it is. -/
theorem Paid.startFree {attempt : Nat} (paid : Paid watched)
    (found : watched.pass number = some ⟨read, .starting .machine attempt⟩) :
    Paid { watched.goOn number (some ⟨read, .started .machine attempt⟩) with
      log := some (.restarted .machine) :: watched.log } := by
  have priced : Priced read .machine attempt := paid.sound number _ found
  have sound : Pass.Sound ⟨read, .started .machine attempt⟩ := priced
  have goes : Paid (watched.goOn number (some ⟨read, .started .machine attempt⟩)) :=
    paid.goOn (owed_of_stage found) rfl fun pass same => some.inj same ▸ sound
  exact ⟨goes.books.start (fun same => DownKind.noConfusion same) (.inl rfl) (.inl rfl) (.inl rfl)
    id, goes.one, goes.sound⟩

/-- A start that is counted is called: it is the only one that is owed from here on. -/
theorem Paid.startCounted {attempt : Nat} {kind : DownKind} (paid : Paid watched)
    (found : watched.pass number = some ⟨read, .starting kind attempt⟩) (counted : kind ≠ .machine)
    (room : watched.row.restartAttempts < watched.row.maxRestarts)
    (nothing : ∀ other, watched.owed other = false) :
    Paid { watched.goOn number (some ⟨read, .started kind attempt⟩) with
      log := some (.restarted kind) :: watched.log } := by
  have priced : Priced read kind attempt := paid.sound number _ found
  have nobody : ¬ ∃ other, watched.owed other = true := by
    rintro ⟨other, owes⟩
    rw [nothing other] at owes
    cases owes
  have owed (other : Nat) : Watched.owed (watched.goOn number (some ⟨read, .started kind attempt⟩))
      other = if other = number then kind != .machine else watched.owed other :=
    Watched.owed_goOn ..
  have only (other : Nat) (owes : Watched.owed (watched.goOn number
      (some ⟨read, .started kind attempt⟩)) other = true) : other = number := by
    by_contra different
    rw [owed, if_neg different, nothing] at owes
    cases owes
  have possible : kind ≠ .outOfMemory := by
    rcases priced with ⟨machine, -⟩ | ⟨rfl | rfl, -⟩
    · exact absurd machine counted
    · exact fun same => DownKind.noConfusion same
    · exact fun same => DownKind.noConfusion same
  refine ⟨paid.books.start possible (.inr room) (.inr nobody) (.inr ⟨number, (owed number).trans ?_⟩)
    (fun owing => absurd owing nobody), ?_, ?_⟩
  · rw [if_pos rfl]
    exact bne_iff_ne.mpr counted
  · exact fun first second owesFirst owesSecond =>
      (only first owesFirst).trans (only second owesSecond).symm
  · exact sound_goOn paid.sound fun pass same => some.inj same ▸ priced

/-- The last write of a pass whose start is written: the attempts are those the row has, where the
machine is behind it or it was written before, and else one more, which is what was owed. -/
theorem Paid.recorded {attempt : Nat} {kind : DownKind} {stage : Stage} {goes : Option Pass}
    {change : ServerChange} {wrote : Time} (paid : Paid watched)
    (found : watched.pass number = some ⟨read, stage⟩)
    (writes : change.restartAttempts = some attempt) (quiet : goes.any Pass.owes = false)
    (sound : ∀ pass, goes = some pass → pass.Sound)
    (right : (attempt = watched.row.restartAttempts ∧ Pass.owes ⟨read, stage⟩ = false) ∨
      (kind ≠ .machine ∧ attempt = watched.row.restartAttempts + 1 ∧
        watched.row.restartAttempts < watched.row.maxRestarts)) :
    Paid { (watched.put change wrote).goOn number goes with
      log := some (.recorded kind watched.row.restartAttempts attempt) :: watched.log } := by
  have attempts : (watched.row.apply change wrote).restartAttempts = attempt := by
    show change.restartAttempts.getD _ = attempt
    rw [writes]
    rfl
  have put : Books watched.row
      (some (.recorded kind watched.row.restartAttempts attempt) :: watched.log)
      (∃ other, watched.owed other = true) := by
    refine paid.books.put rfl (fun _ => rfl) ?_ (fun _ same => WatchdogAct.noConfusion same)
    intro before later same
    cases same
    rcases right with ⟨same, -⟩ | ⟨impossible, -⟩
    · exact same
    · exact absurd rfl impossible
  have less (other : Nat)
      (owes : ((watched.put change wrote).goOn number goes).owed other = true) :
      watched.owed other = true := by
    rw [Watched.owed_goOn] at owes
    split at owes
    · rw [quiet] at owes
      cases owes
    · exact owes
  refine ⟨?_, ?_, sound_goOn paid.sound sound⟩
  · rcases right with ⟨same, owesNothing⟩ | ⟨-, more, room⟩
    · refine put.same ?_ (attempts.trans same) rfl
      rintro ⟨other, owes⟩
      have before : (watched.put change wrote).owed number = false :=
        (owed_of_stage found).trans owesNothing
      exact ⟨other, (owed_goOn_of_quiet before quiet other).trans owes⟩
    · exact put.pay (attempts.trans more) rfl room
  · exact fun first second owesFirst owesSecond =>
      paid.one first second (less first owesFirst) (less second owesSecond)

/-- A last write that leaves the attempts alone. -/
theorem Paid.ended {change : ServerChange} {wrote : Time} (paid : Paid watched)
    (quiet : watched.owed number = false) (leaves : change.restartAttempts = none) :
    Paid ((watched.put change wrote).goOn number none) :=
  (paid.put leaves wrote).ends quiet

/-- Giving up is put down when there is nothing left, or for want of memory. -/
theorem Paid.gaveUp {kind : DownKind} (paid : Paid watched) (possible : kind ≠ .machine)
    (spent : kind = .outOfMemory ∨ watched.row.maxRestarts ≤ watched.row.restartAttempts) :
    Paid { watched with log := some (.gaveUp kind) :: watched.log } := by
  refine ⟨paid.books.put rfl (fun _ => rfl) (fun _ _ same => WatchdogAct.noConfusion same) ?_,
    paid.one, paid.sound⟩
  intro other same
  cases same
  exact spent.imp_right fun reached => ⟨possible, reached⟩

theorem Paid.write {pass : Pass} {change : ServerChange} {refusal : Option String} {noted : Bool}
    {wrote : Time} (paid : Paid watched) (found : watched.pass number = some pass)
    (right : pass.RightAbout watched) (writes : pass.stage.lastWrite refusal wrote = some change) :
    Paid { (watched.put change wrote).goOn number
        ((pass.stage.afterWrite refusal noted).map (Pass.mk pass.read)) with
      log := pass.stage.acts watched.row.restartAttempts ++ watched.log } := by
  obtain ⟨read, stage⟩ := pass
  have sound := paid.sound number _ found
  have owed := owed_of_stage found
  cases stage with
  | gone node =>
    cases writes
    exact paid.ended owed rfl
  | leaving reason =>
    cases writes
    exact paid.ended owed rfl
  | marking =>
    cases writes
    exact paid.ended owed rfl
  | giving kind reason =>
    cases writes
    exact (paid.ended owed rfl).gaveUp sound right
  | started kind attempt =>
    have recorded : change.restartAttempts = some attempt := by
      cases refusal with
      | none =>
        cases writes
        rfl
      | some said =>
        cases writes
        rfl
    obtain ⟨asRead, room⟩ := right
    refine paid.recorded found recorded ?_ ?_ ?_
    · show Option.any Pass.owes (Option.map _ (if _ then _ else _)) = false
      split
      · rfl
      · rfl
    · intro pass same
      obtain ⟨stage, goes, rfl⟩ := map_eq_some_iff.mp same
      simp only [Stage.afterWrite] at goes
      split at goes
      · cases goes
        exact trivial
      · cases goes
    · rcases sound with ⟨rfl, free⟩ | ⟨which, counted⟩
      · exact .inl ⟨free.trans asRead.symm, rfl⟩
      · have notMachine : kind ≠ .machine := by
          rcases which with rfl | rfl
          · exact fun same => DownKind.noConfusion same
          · exact fun same => DownKind.noConfusion same
        exact .inr ⟨notMachine, counted.trans (congrArg (· + 1) asRead.symm),
          room.resolve_left notMachine⟩
  | unnoted kind attempt =>
    cases writes
    exact paid.recorded found rfl rfl sound_none (.inl ⟨right.symm, rfl⟩)
  | reading => cases writes
  | looked report => cases writes
  | crashed attempts report => cases writes
  | stopped evidence => cases writes
  | starting kind attempt => cases writes

/-- One event keeps the books. -/
theorem paid_step (watched : Watched) (event : WatchEvent) (next : Watched) (paid : Paid watched)
    (undisturbed : Undisturbed watched event) (taken : watchStep watched event = some next) :
    Paid next := by
  cases event with
  | read number =>
    simp only [watchStep] at taken
    split at taken
    · rename_i free
      cases taken
      refine paid.goOn ?_ rfl fun pass same => some.inj same ▸ trivial
      unfold Watched.owed
      rw [free.2]
      rfl
    · cases taken
  | look number report wrote =>
    simp only [watchStep] at taken
    split at taken
    · rename_i read found
      cases taken
      exact paid.answered (owed_of_stage found) report wrote
    · cases taken
  | observe number now wrote =>
    simp only [watchStep] at taken
    split at taken
    · rename_i read report found
      cases taken
      exact paid.observe (owed_of_stage found) report now wrote
    · cases taken
  | decide number now =>
    have goesOn {read : ServerRow} {stage : Option Stage} (quiet : watched.owed number = false)
        (sound : ∀ goes, stage = some goes →
          Pass.Sound ⟨read, goes⟩ ∧ Pass.owes ⟨read, goes⟩ = false) :
        Paid (watched.goOn number (stage.map (Pass.mk read))) := by
      cases stage with
      | none => exact paid.ends quiet
      | some goes =>
        exact paid.goOn quiet (sound goes rfl).2 fun pass same =>
          some.inj same ▸ (sound goes rfl).1
    simp only [watchStep] at taken
    split at taken
    · rename_i read attempts report found
      have asRead : attempts = read.restartAttempts := paid.sound number _ found
      cases taken
      rw [asRead]
      exact goesOn (owed_of_stage found) fun goes same => sound_recover same
    · rename_i read evidence found
      cases taken
      exact goesOn (owed_of_stage found) fun goes same => sound_recoverAfterStop same
    · cases taken
  | start number =>
    simp only [watchStep] at taken
    split at taken
    · rename_i read kind attempt found
      cases taken
      have right : Pass.RightAbout watched ⟨read, .starting kind attempt⟩ := undisturbed _ found
      by_cases machine : kind = .machine
      · subst machine
        exact paid.startFree found
      · obtain ⟨room, nothing⟩ := right.resolve_left machine
        exact paid.startCounted found machine room (owed_of_none_owes nothing)
    · cases taken
  | write number refusal noted wrote =>
    obtain ⟨pass, found, wrote⟩ := bind_eq_some_iff.mp taken
    obtain ⟨change, writes, rfl⟩ := map_eq_some_iff.mp wrote
    exact paid.write found (undisturbed pass found) writes
  | lose number =>
    obtain ⟨pass, found, rfl⟩ := map_eq_some_iff.mp taken
    exact paid.ends undisturbed
  | reset policy maxRestarts change now =>
    cases taken
    exact paid.reset rfl
  | other change now =>
    cases taken
    exact paid.put rfl now

/-! ### Runs -/

/-- A server before its first pass. -/
def Watched.fresh (row : ServerRow) : Watched := ⟨row, [], []⟩

theorem Paid.fresh {row : ServerRow} (below : row.restartAttempts ≤ row.maxRestarts) :
    Paid (.fresh row) := by
  refine ⟨⟨below, Nat.zero_le _, .inl (Nat.zero_le _), ?_, ?_, ?_, rfl⟩, ?_, ?_⟩
  · exact fun _ _ member => absurd member not_mem_nil
  · intro later earlier kind same
    cases later with
    | nil => cases same
    | cons act later => cases same
  · exact fun _ member => absurd member not_mem_nil
  · exact fun number other owes => Bool.noConfusion owes
  · exact fun number pass same => sound_none pass same

/-- Over every run of passes, resets and other writes in which nothing comes between a decision
and what is done about it, the budget holds in every state. -/
theorem crash_budget_kept (row : ServerRow) (events : List WatchEvent)
    (below : row.restartAttempts ≤ row.maxRestarts)
    (undisturbed : Systems.Meets watchStep Undisturbed (.fresh row) events) :
    Systems.Along watchStep Budget (.fresh row) events :=
  (Systems.along_of_meets paid_step (Paid.fresh below) undisturbed).mono
    fun _ paid => paid.budget

end

namespace Sample

/-- A running server that may be started three times in a row after a crash. -/
def watched : ServerRow := { row with state := .running, restartPolicy := .onFailure }

/-- A pass up to the start of a server that it finds crashed. -/
def crashPass (number : Nat) (now : Time) : List WatchEvent :=
  [.read number, .look number { state := .crashed, exitCode := some 1 } now,
    .observe number now now, .decide number now, .start number]

/-- Two passes that start a crashed server, and between them a save of its settings that lowers
the ceiling to one start. -/
def crashedTwice : List WatchEvent :=
  crashPass 0 0 ++ .write 0 none true 0 :: .reset .onFailure 1 {} 10000 ::
    (crashPass 1 40000 ++ [.write 1 none false 40000, .write 1 none true 40000])

/-- A pass that starts a server for the third time of three, and before it writes that, a save of
the server's settings that allows one start. -/
def savedMeanwhile : List WatchEvent :=
  crashPass 0 0 ++ [.reset .onFailure 1 {} 0, .write 0 none true 0]

end Sample

instance (watched : Watched) (pass : Pass) : Decidable (pass.RightAbout watched) := by
  unfold Pass.RightAbout
  split <;> infer_instance

instance (watched : Watched) (event : WatchEvent) : Decidable (Undisturbed watched event) := by
  unfold Undisturbed
  split <;> infer_instance

theorem crash_budget_kept_twice :
    (Systems.run watchStep (.fresh Sample.watched) Sample.crashedTwice).isSome ∧
      Systems.Along watchStep Budget (.fresh Sample.watched) Sample.crashedTwice :=
  ⟨by decide +kernel,
    crash_budget_kept Sample.watched Sample.crashedTwice (by decide) (by decide +kernel)⟩

/-- What a pass writes in the end goes by the row it read: three attempts over a ceiling of one. -/
theorem late_write_exceeds_ceiling :
    2 ≤ Sample.watched.maxRestarts ∧ ¬ Systems.Along watchStep Budget
      (.fresh { Sample.watched with restartAttempts := 2 }) Sample.savedMeanwhile := by
  refine ⟨by decide, fun along => ?_⟩
  have ends := (@Option.some_get _ (Systems.run watchStep
    (.fresh { Sample.watched with restartAttempts := 2 }) Sample.savedMeanwhile)
      (by decide +kernel)).symm
  have kept := (Systems.along_last along ends).attempts
  revert kept
  decide +kernel

end Geeboard.Panel
