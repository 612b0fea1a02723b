/-
This file is about one run of what is due: several workers that each look for the
next due task, claim it, run it, and look again, and a limit on the tasks of one
node that run at once.

The workers take turns at every statement they wait for. A worker tests the node's
count, waits for its claim, and raises the count behind it, so two workers may pass
the test before either raises. A run in which the room a worker has tested is still
there when its claim comes back keeps the limit. A task that is passed over stays
as it is in any run, until somebody claims it or writes it.
-/

import Geeboard.Scheduling.Cron
import Geeboard.Systems.Steps
import Geeboard.Text.Numerals
import Mathlib.Data.List.Sort

namespace Geeboard.Scheduling.DueTasks

open List Option Function
open Text (wholeNumber)

/-! ### The workers -/

/-- A scheduled task, with the node its server is on. -/
structure TaskRow where
  id : Nat
  cron : List Char
  enabled : Bool
  nextRunAt : Option Nat
  node : Option Nat
  deriving DecidableEq, Repr

/-- Where a worker is: about to ask for the next task, or with its query, the tasks it found, its
claim and the claim's answer under way, or running a task. -/
inductive Worker where
  | ready
  | asked (at_ : Nat)
  | listed (at_ : Nat) (candidates : List TaskRow)
  | claiming (at_ : Nat) (task : TaskRow) (rest : List TaskRow)
  | answered (at_ : Nat) (task : TaskRow) (rest : List TaskRow) (taken : Bool)
  | running (task : TaskRow) (tooLate : Bool)
  | ended
  deriving DecidableEq, Repr

/-- The table, what the run keeps for itself, its workers, and the rows that were passed over
because of the limit and that nobody has claimed or written since. -/
structure State where
  rows : List TaskRow
  onNode : Nat → Nat
  seen : List Nat
  start : Option Nat
  workers : List Worker
  passedOver : List TaskRow

/-- A worker goes on, or somebody else writes tasks. -/
inductive Event where
  | stop (worker : Nat)
  | ask (worker clock : Nat)
  | query (worker : Nat) (ordered : List TaskRow)
  | walk (worker : Nat)
  | claim (worker : Nat)
  | answer (worker : Nat)
  | work (worker : Nat) (row : Option TaskRow)
  | finish (worker : Nat)
  | fall (worker : Nat)
  | other (ids : List Nat) (rows : List TaskRow)
  deriving DecidableEq, Repr

/-- How late a task is still run. -/
def LATE_TOLERANCE_MS : Nat := 15 * 60000

/-- The tasks that are due, in the order of their times. Those of one time stand in any order. -/
def Ordered (rows : List TaskRow) (at_ : Nat) (ordered : List TaskRow) : Bool :=
  ordered.isPerm (rows.filter fun row => row.enabled && row.nextRunAt.any fun time => time ≤ at_) &&
    decide (ordered.Pairwise fun first second =>
      first.nextRunAt.getD 0 ≤ second.nextRunAt.getD 0)

/-- The rows with the tasks of these ids written anew. -/
def rewritten (rows : List TaskRow) (ids : List Nat) (anew : List TaskRow) : List TaskRow :=
  rows.filter (fun row => !ids.contains row.id) ++ anew.filter fun row => ids.contains row.id

section

variable (number : List Char → Option Int) (perNode : Nat)

/-- Whether a task is passed over: already taken up, or on a node that is at its limit. -/
def passed (state : State) (task : TaskRow) : Bool :=
  state.seen.contains task.id || task.node.any fun node => perNode ≤ state.onNode node

/-- From one task to the next, up to the first that is not passed over. -/
def walk (state : State) (at_ : Nat) : List TaskRow → Worker
  | [] => .ended
  | task :: rest => if passed perNode state task then walk state at_ rest else .claiming at_ task rest

/-- The tasks on the way that are passed over because of the limit. -/
def overLimit (state : State) : List TaskRow → List Nat
  | [] => []
  | task :: rest =>
    if state.seen.contains task.id then overLimit state rest
    else if task.node.any fun node => perNode ≤ state.onNode node then
      task.id :: overLimit state rest
    else []

/-- Nobody has claimed or written these until now. -/
def State.handle (state : State) (ids : List Nat) : State :=
  { state with passedOver := state.passedOver.filter fun row => !ids.contains row.id }

def State.passOver (state : State) (ids : List Nat) : State :=
  { state with
    passedOver := state.passedOver ++ state.rows.filter fun row => ids.contains row.id }

def State.setWorker (state : State) (worker : Nat) (next : Worker) : State :=
  { state with workers := state.workers.set worker next }

/-- The row with its next run moved on. -/
def claimedRow (task : TaskRow) (at_ : Nat) (row : TaskRow) : TaskRow :=
  if row.id = task.id ∧ row.nextRunAt = task.nextRunAt then
    { row with nextRunAt := nextRun number task.cron at_ }
  else row

def raised (onNode : Nat → Nat) : Option Nat → Nat → Nat
  | none => onNode
  | some node => Function.update onNode node (onNode node + 1)

def lowered (onNode : Nat → Nat) : Option Nat → Nat → Nat
  | none => onNode
  | some node => Function.update onNode node (onNode node - 1)

/-- One statement of a worker, or what it does with an answer before it waits again. -/
def step (state : State) : Event → Option State
  | .stop worker =>
    match state.workers[worker]? with
    | some .ready => some (state.setWorker worker .ended)
    | _ => none
  | .ask worker clock =>
    match state.workers[worker]? with
    | some .ready =>
      some { (state.setWorker worker (.asked (state.start.getD clock))) with start := none }
    | _ => none
  | .query worker ordered =>
    match state.workers[worker]? with
    | some (.asked at_) =>
      if Ordered state.rows at_ ordered then
        some (state.setWorker worker (.listed at_ (ordered.take 100)))
      else none
    | _ => none
  | .walk worker =>
    match state.workers[worker]? with
    | some (.listed at_ candidates) =>
      some ((state.passOver (overLimit perNode state candidates)).setWorker worker
        (walk perNode state at_ candidates))
    | _ => none
  | .claim worker =>
    match state.workers[worker]? with
    | some (.claiming at_ task rest) =>
      if state.rows.any fun row => row.id == task.id && row.nextRunAt == task.nextRunAt then
        some { ((state.handle [task.id]).setWorker worker (.answered at_ task rest true)) with
          rows := state.rows.map (claimedRow number task at_) }
      else some (state.setWorker worker (.answered at_ task rest false))
    | _ => none
  | .answer worker =>
    match state.workers[worker]? with
    | some (.answered at_ task rest taken) =>
      let state := { (state.handle [task.id]) with seen := task.id :: state.seen }
      if taken then
        some { (state.setWorker worker
          (.running task (LATE_TOLERANCE_MS < at_ - task.nextRunAt.getD at_))) with
          onNode := raised state.onNode task.node }
      else
        some ((state.passOver (overLimit perNode state rest)).setWorker worker
          (walk perNode state at_ rest))
    | _ => none
  | .work worker row =>
    match state.workers[worker]? with
    | some (.running task _) =>
      some { (state.handle [task.id]) with
        rows := rewritten state.rows [task.id] row.toList }
    | _ => none
  | .finish worker =>
    match state.workers[worker]? with
    | some (.running task _) =>
      some { (state.setWorker worker .ready) with onNode := lowered state.onNode task.node }
    | _ => none
  | .fall worker =>
    -- A statement that throws ends its worker; a task it was running is counted no more.
    match state.workers[worker]? with
    | some (.running task _) =>
      some { (state.setWorker worker .ended) with onNode := lowered state.onNode task.node }
    | some .ended => none
    | some _ => some (state.setWorker worker .ended)
    | none => none
  | .other ids rows =>
    some { (state.handle ids) with rows := rewritten state.rows ids rows }

end

/-- A run as it begins. -/
def beginning (rows : List TaskRow) (now concurrency : Nat) : State :=
  ⟨rows, fun _ => 0, [], some now, List.replicate (max 1 concurrency) .ready, []⟩

/-! ### What is to hold, and when it does -/

/-- The worker is running a task of the node. -/
def Worker.runsOn (node : Nat) : Worker → Bool
  | .running task tooLate => task.node == some node && !tooLate
  | _ => false

/-- The tasks of a node that are being run. -/
def State.runningOn (state : State) (node : Nat) : Nat := state.workers.countP (Worker.runsOn node)

/-- No more tasks of a node are being run than the limit. -/
def Within (perNode : Nat) (state : State) : Prop := ∀ node, state.runningOn node ≤ perNode

/-- A task that was passed over because of the limit is in its table as it was then, and is one the
run may still take up. -/
def Waiting (state : State) : Prop :=
  ∀ row ∈ state.passedOver, row ∈ state.rows ∧ row.id ∉ state.seen

/-- When a claim comes back as made, the node is still below its limit, as it was when the worker
tested it. -/
def RoomLeft (perNode : Nat) (state : State) : Event → Prop
  | .answer worker =>
    match state.workers[worker]? with
    | some (.answered _ task _ true) => ∀ node, task.node = some node → state.onNode node < perNode
    | _ => True
  | _ => True

/-! ### The count -/

/-- The worker holds a task of the node, to run or to skip it. -/
def Worker.holds (node : Nat) : Worker → Bool
  | .running task _ => task.node == some node
  | _ => false

/-- The run's own count is right, and within the limit. -/
structure Counted (perNode : Nat) (state : State) : Prop where
  right : ∀ node, state.onNode node = state.workers.countP (Worker.holds node)
  within : ∀ node, state.onNode node ≤ perNode

section Counts

variable {number : List Char → Option Int} {perNode : Nat} {state next : State} {worker : Nat}

theorem Counted.runningOn_le (counted : Counted perNode state) : Within perNode state := by
  intro node
  refine le_trans (countP_mono_left fun one _ runs => ?_)
    ((counted.right node).symm.le.trans (counted.within node))
  cases one with
  | running task tooLate => exact (Bool.and_eq_true_iff.mp runs).1
  | _ => cases runs

theorem countP_set (holds : Worker → Bool) {workers : List Worker} {old : Worker} (new : Worker)
    (has : workers[worker]? = some old) :
    (workers.set worker new).countP holds + (if holds old then 1 else 0) =
      workers.countP holds + if holds new then 1 else 0 := by
  obtain ⟨bound, rfl⟩ := List.getElem?_eq_some_iff.mp has
  have positive : holds workers[worker] = true → 0 < workers.countP holds := fun here =>
    countP_pos_iff.mpr ⟨_, getElem_mem bound, here⟩
  rw [List.countP_set bound]
  split
  · rename_i here
    have := positive here
    omega
  · omega

/-- A worker that held no task and holds none. -/
theorem Counted.setWorker (counted : Counted perNode state) {old new : Worker}
    (has : state.workers[worker]? = some old) (before : ∀ node, old.holds node = false)
    (after : ∀ node, new.holds node = false) : Counted perNode (state.setWorker worker new) := by
  refine ⟨fun node => ?_, counted.within⟩
  have same := countP_set (Worker.holds node) new has
  rw [before node, after node] at same
  exact (counted.right node).trans same.symm

theorem raised_eq (onNode : Nat → Nat) (own : Option Nat) (node : Nat) :
    raised onNode own node = onNode node + if own = some node then 1 else 0 := by
  cases own with
  | none => rfl
  | some here =>
    unfold raised
    dsimp only
    by_cases same : node = here
    · rw [same, update_self, if_pos rfl]
    · rw [update_of_ne same, if_neg fun other => same (some.inj other).symm]
      rfl

theorem Counted.raise (counted : Counted perNode state) {old : Worker} {task : TaskRow}
    {tooLate : Bool} (has : state.workers[worker]? = some old)
    (before : ∀ node, old.holds node = false)
    (room : ∀ node, task.node = some node → state.onNode node < perNode) :
    Counted perNode { (state.setWorker worker (.running task tooLate)) with
      onNode := raised state.onNode task.node } := by
  refine ⟨fun node => ?_, fun node => ?_⟩
  · have same := countP_set (Worker.holds node) (.running task tooLate) has
    rw [before node] at same
    have held : (Worker.running task tooLate).holds node = (task.node == some node) := rfl
    dsimp only
    rw [raised_eq, counted.right node]
    rw [held] at same
    simp only [beq_iff_eq] at same
    exact same.symm
  · dsimp only
    rw [raised_eq]
    split
    · rename_i own
      exact room node own
    · exact counted.within node

theorem lowered_eq (onNode : Nat → Nat) (own : Option Nat) (node : Nat) :
    lowered onNode own node = onNode node - if own = some node then 1 else 0 := by
  cases own with
  | none => rfl
  | some here =>
    unfold lowered
    dsimp only
    by_cases same : node = here
    · rw [same, update_self, if_pos rfl]
    · rw [update_of_ne same, if_neg fun other => same (some.inj other).symm]
      rfl

theorem Counted.lower (counted : Counted perNode state) {task : TaskRow} {tooLate : Bool}
    {new : Worker} (has : state.workers[worker]? = some (.running task tooLate))
    (after : ∀ node, new.holds node = false) :
    Counted perNode { (state.setWorker worker new) with
      onNode := lowered state.onNode task.node } := by
  refine ⟨fun node => ?_, fun node => ?_⟩
  · have same := countP_set (Worker.holds node) new has
    have held : (Worker.running task tooLate).holds node = (task.node == some node) := rfl
    dsimp only
    rw [lowered_eq, counted.right node]
    rw [held, after node, if_neg Bool.false_ne_true] at same
    simp only [beq_iff_eq] at same
    exact Nat.sub_eq_of_eq_add same.symm
  · dsimp only
    rw [lowered_eq]
    exact (Nat.sub_le _ _).trans (counted.within node)

theorem walk_holds (at_ : Nat) (candidates : List TaskRow) (node : Nat) :
    (walk perNode state at_ candidates).holds node = false := by
  induction candidates with
  | nil => rfl
  | cons task rest inductionHypothesis =>
    unfold walk
    split
    · exact inductionHypothesis
    · rfl

theorem counted_step {event : Event} (counted : Counted perNode state)
    (room : RoomLeft perNode state event) (taken : step number perNode state event = some next) :
    Counted perNode next := by
  have idle : ∀ node : Nat, ∀ one : Worker, (∀ task late, one ≠ .running task late) →
      one.holds node = false := by
    intro node one other
    cases one with
    | running task late => exact absurd rfl (other task late)
    | _ => rfl
  unfold step at taken
  cases event with
  | stop worker =>
    dsimp only at taken
    split at taken
    · rename_i has
      cases taken
      exact counted.setWorker has (fun _ => rfl) fun _ => rfl
    · cases taken
  | ask worker clock =>
    dsimp only at taken
    split at taken
    · rename_i has
      cases taken
      have moved : Counted perNode
          (state.setWorker worker (.asked (state.start.getD clock))) :=
        counted.setWorker has (fun _ => rfl) fun _ => rfl
      exact ⟨moved.right, moved.within⟩
    · cases taken
  | query worker ordered =>
    dsimp only at taken
    split at taken
    · rename_i at_ has
      split at taken
      · cases taken
        exact counted.setWorker has (fun _ => rfl) fun _ => rfl
      · cases taken
    · cases taken
  | walk worker =>
    dsimp only at taken
    split at taken
    · rename_i at_ candidates has
      cases taken
      have looked : Counted perNode (state.passOver (overLimit perNode state candidates)) :=
        ⟨counted.right, counted.within⟩
      exact looked.setWorker has (fun _ => rfl) (walk_holds at_ candidates)
    · cases taken
  | claim worker =>
    dsimp only at taken
    split at taken
    · rename_i at_ task rest has
      split at taken
      · cases taken
        have moved : Counted perNode (state.setWorker worker (.answered at_ task rest true)) :=
          counted.setWorker has (fun _ => rfl) fun _ => rfl
        exact ⟨moved.right, moved.within⟩
      · cases taken
        exact counted.setWorker has (fun _ => rfl) fun _ => rfl
    · cases taken
  | answer worker =>
    unfold RoomLeft at room
    dsimp only at taken room
    split at taken
    · rename_i at_ task rest took has
      rw [has] at room
      have looked : Counted perNode
          { (state.handle [task.id]) with seen := task.id :: state.seen } :=
        ⟨counted.right, counted.within⟩
      split at taken
      · rename_i yes
        obtain rfl := yes
        cases taken
        exact looked.raise has (fun _ => rfl) room
      · cases taken
        have passed : Counted perNode (State.passOver
            { (state.handle [task.id]) with seen := task.id :: state.seen }
            (overLimit perNode
              { (state.handle [task.id]) with seen := task.id :: state.seen } rest)) :=
          ⟨counted.right, counted.within⟩
        exact passed.setWorker has (fun _ => rfl) (walk_holds at_ rest)
    · cases taken
  | work worker row =>
    dsimp only at taken
    split at taken
    · cases taken
      exact ⟨counted.right, counted.within⟩
    · cases taken
  | finish worker =>
    dsimp only at taken
    split at taken
    · rename_i task late has
      cases taken
      exact counted.lower has fun _ => rfl
    · cases taken
  | fall worker =>
    dsimp only at taken
    split at taken
    · rename_i task late has
      cases taken
      exact counted.lower has fun _ => rfl
    · cases taken
    · rename_i one running _ has
      cases taken
      exact counted.setWorker has (fun node => idle node one running) fun _ => rfl
    · cases taken
  | other ids rows =>
    cases taken
    exact ⟨counted.right, counted.within⟩

end Counts

/-! ### The tasks passed over -/

section Passing

variable {number : List Char → Option Int} {perNode : Nat} {state next : State}

theorem seen_of_overLimit {id : Nat} {candidates : List TaskRow}
    (limited : id ∈ overLimit perNode state candidates) : id ∉ state.seen := by
  induction candidates with
  | nil => cases limited
  | cons task rest inductionHypothesis =>
    unfold overLimit at limited
    split at limited
    · exact inductionHypothesis limited
    · rename_i unseen
      split at limited
      · rcases mem_cons.mp limited with rfl | later
        · exact fun seen => unseen (contains_iff_mem.mpr seen)
        · exact inductionHypothesis later
      · cases limited

theorem Waiting.setWorker (waiting : Waiting state) (worker : Nat) (new : Worker) :
    Waiting (state.setWorker worker new) := waiting

theorem Waiting.passOver (waiting : Waiting state) {ids : List Nat}
    (unseen : ∀ id ∈ ids, id ∉ state.seen) : Waiting (state.passOver ids) := by
  intro row passed
  rcases mem_append.mp passed with before | now
  · exact waiting row before
  · obtain ⟨has, named⟩ := mem_filter.mp now
    exact ⟨has, unseen row.id (contains_iff_mem.mp named)⟩

/-- What is left when these ids are handled: rows of other tasks. -/
theorem State.mem_handle {ids : List Nat} {row : TaskRow}
    (passed : row ∈ (state.handle ids).passedOver) : row ∈ state.passedOver ∧ row.id ∉ ids := by
  obtain ⟨before, other⟩ := mem_filter.mp passed
  refine ⟨before, fun named => ?_⟩
  rw [contains_iff_mem.mpr named] at other
  cases other

theorem mem_rewritten {rows anew : List TaskRow} {ids : List Nat} {row : TaskRow} (has : row ∈ rows)
    (other : row.id ∉ ids) : row ∈ rewritten rows ids anew := by
  refine mem_append_left _ (mem_filter.mpr ⟨has, ?_⟩)
  rw [Bool.not_eq_true']
  exact Bool.eq_false_iff.mpr fun named => other (contains_iff_mem.mp named)

theorem Waiting.rewrite (waiting : Waiting state) (ids : List Nat) (anew : List TaskRow) :
    Waiting { (state.handle ids) with rows := rewritten state.rows ids anew } := by
  intro row passed
  obtain ⟨before, other⟩ := State.mem_handle passed
  exact ⟨mem_rewritten (waiting row before).1 other, (waiting row before).2⟩

theorem Waiting.claim (waiting : Waiting state) (task : TaskRow) (at_ : Nat) :
    Waiting { (state.handle [task.id]) with
      rows := state.rows.map (claimedRow number task at_) } := by
  intro row passed
  obtain ⟨before, other⟩ := State.mem_handle passed
  have same : claimedRow number task at_ row = row :=
    if_neg fun both => other (mem_singleton.mpr both.1)
  exact ⟨List.mem_map.mpr ⟨row, (waiting row before).1, same⟩, (waiting row before).2⟩

theorem Waiting.look (waiting : Waiting state) (id : Nat) :
    Waiting { (state.handle [id]) with seen := id :: state.seen } := by
  intro row passed
  obtain ⟨before, other⟩ := State.mem_handle passed
  refine ⟨(waiting row before).1, fun seen => ?_⟩
  rcases mem_cons.mp seen with same | earlier
  · exact other (mem_singleton.mpr same)
  · exact (waiting row before).2 earlier

theorem waiting_step {event : Event} (waiting : Waiting state)
    (taken : step number perNode state event = some next) : Waiting next := by
  unfold step at taken
  cases event with
  | stop worker | ask worker clock | finish worker =>
    dsimp only at taken
    split at taken
    · cases taken
      exact waiting
    · cases taken
  | query worker ordered =>
    dsimp only at taken
    split at taken
    · split at taken
      · cases taken
        exact waiting
      · cases taken
    · cases taken
  | walk worker =>
    dsimp only at taken
    split at taken
    · cases taken
      exact (waiting.passOver fun id limited => seen_of_overLimit limited).setWorker worker _
    · cases taken
  | claim worker =>
    dsimp only at taken
    split at taken
    · rename_i at_ task rest has
      split at taken
      · cases taken
        exact (waiting.claim task at_).setWorker worker _
      · cases taken
        exact waiting
    · cases taken
  | answer worker =>
    dsimp only at taken
    split at taken
    · rename_i at_ task rest took has
      have looked := waiting.look task.id
      split at taken
      · cases taken
        exact looked
      · cases taken
        exact (looked.passOver fun id limited => seen_of_overLimit limited).setWorker worker _
    · cases taken
  | work worker row =>
    dsimp only at taken
    split at taken
    · cases taken
      exact waiting.rewrite _ _
    · cases taken
  | fall worker =>
    dsimp only at taken
    split at taken
    · cases taken
      exact waiting
    · cases taken
    · cases taken
      exact waiting
    · cases taken
  | other ids rows =>
    cases taken
    exact waiting.rewrite ids rows

end Passing

/-! ### Every run -/

theorem beginning_counted (perNode : Nat) (rows : List TaskRow) (now concurrency : Nat) :
    Counted perNode (beginning rows now concurrency) := by
  refine ⟨fun node => ?_, fun node => Nat.zero_le perNode⟩
  refine (countP_eq_zero.mpr fun one mem => ?_).symm
  rw [eq_of_mem_replicate mem]
  exact Bool.false_ne_true

/-- While each claim comes back to a node that still has room, no node's tasks run beyond the
limit; and whatever happens, a task that is passed over stays as it is. -/
theorem node_limit_kept (number : List Char → Option Int) (perNode : Nat) (rows : List TaskRow)
    (now concurrency : Nat) (events : List Event) :
    (Systems.Meets (step number perNode) (RoomLeft perNode) (beginning rows now concurrency)
        events →
      Systems.Along (step number perNode) (Within perNode) (beginning rows now concurrency)
        events) ∧
    Systems.Along (step number perNode) Waiting (beginning rows now concurrency) events := by
  constructor
  · intro room
    exact (Systems.along_of_meets (fun _ _ _ counted room taken => counted_step counted room taken)
      (beginning_counted perNode rows now concurrency) room).mono
      fun _ counted => counted.runningOn_le
  · exact Systems.along_of_kept (fun _ _ _ waiting taken => waiting_step waiting taken)
      (fun row passed => absurd passed not_mem_nil) events

/-! ### Two tasks of one node -/

/-- A nightly task of the first node, due at this time. -/
def nightlyTask (id : Nat) : TaskRow := ⟨id, "0 3 * * *".toList, true, some 10800000, some 0⟩

def twoTasks : List TaskRow := [nightlyTask 1, nightlyTask 2]

/-- Both workers make their lists before either claims; the second passes over the first task's
node, once the count is raised, and its worker ends. -/
def oneWaits : List Event := [.ask 0 10800000, .ask 1 10800000, .query 0 twoTasks, .query 1 twoTasks,
  .walk 0, .claim 0, .answer 0, .walk 1]

/-- The second worker makes its list while the claim of the first is on its way back. -/
def bothClaim : List Event := [.ask 0 10800000, .ask 1 10800000, .query 0 twoTasks, .walk 0,
  .claim 0, .query 1 [nightlyTask 2], .walk 1, .claim 1, .answer 0, .answer 1]

theorem node_limit_kept_oneWaits :
    Systems.Along (step wholeNumber 1) (Within 1) (beginning twoTasks 10800000 2) oneWaits := by
  refine (node_limit_kept wholeNumber 1 twoTasks 10800000 2 oneWaits).1 ?_
  refine Systems.meets_cons trivial rfl ?_
  refine Systems.meets_cons trivial rfl ?_
  refine Systems.meets_cons trivial rfl ?_
  refine Systems.meets_cons trivial rfl ?_
  refine Systems.meets_cons trivial rfl ?_
  refine Systems.meets_cons trivial rfl ?_
  refine Systems.meets_cons (fun node _ => Nat.zero_lt_one) rfl ?_
  exact ⟨trivial, fun next taken => trivial⟩

example : (Systems.run (step wholeNumber 1) (beginning twoTasks 10800000 2) oneWaits).map
    (fun last => (last.runningOn 0, last.passedOver)) = some (1, [nightlyTask 2]) := by
  decide +kernel

theorem both_tasks_run :
    (Systems.run (step wholeNumber 1) (beginning twoTasks 10800000 2) bothClaim).map
      (fun last => last.runningOn 0) = some 2 := by
  decide +kernel

/-- Two workers run two tasks of a node that may run one. -/
theorem node_limit_exceeded : ¬ ∀ events, Systems.Along (step wholeNumber 1) (Within 1)
    (beginning twoTasks 10800000 2) events := by
  intro always
  obtain ⟨last, run, two⟩ := map_eq_some_iff.mp both_tasks_run
  have within := Systems.along_last (always bothClaim) run 0
  rw [two] at within
  exact absurd within (by decide)

end Geeboard.Scheduling.DueTasks
