/-
This file is about telling people what the audit log says.

A pass reads the log after a cursor, a batch at a time and in the order of time and
id, makes messages of what it has read, and in one transaction queues a delivery
for each message and channel and moves the cursor to the last row. The first pass
only makes the cursor. Rows younger than a few seconds are left for the next look.
Passes do not overlap, and each may fail at any statement. A row that was there by
the time it had settled is read by one pass of those whose transaction was done:
by the one that moves the cursor past it, and the rows are read in order.
-/

import Geeboard.Systems.Steps
import Mathlib.Data.List.Sort
import Mathlib.Data.Prod.Lex
import Mathlib.Order.Defs.LinearOrder

namespace Geeboard.Notify

open Systems List Option

/-! ### Rows, messages and deliveries -/

/-- The audit rows that become messages. -/
def NOTIFIABLE_ACTIONS : List String :=
  ["server.crashed", "server.recovery.abandoned", "server.left.stopped", "node.unreachable",
    "node.recovered", "backup.failed", "backup.damaged", "server.update.available",
    "panel.update.available"]

/-- A recovery is read too, but only to say a crash was put right. -/
def AUDIT_ACTIONS_READ : List String := NOTIFIABLE_ACTIONS ++ ["server.recovered"]

def NEWS_MAX_AGE_MS : Int := 24 * 3600000
def BATCH : Nat := 500
def RATE_LIMIT_PER_MINUTE : Nat := 10

/-- A row of the audit log, with whatever else it holds that a message is made of. -/
structure ActivityEvent (Id Detail : Type) where
  id : Id
  action : String
  createdAt : Int
  detail : Detail
  deriving DecidableEq, Repr

/-- How far the log has been read. The first look has no id. -/
structure NotificationCursor (Id : Type) where
  lastEventAt : Int
  lastEventId : Option Id
  deriving DecidableEq, Repr

structure NotificationMessage where
  kind : String
  at_ : Int
  tone : String
  title : String
  text : String
  count : Option Nat := none
  deriving DecidableEq, Repr

structure NotificationChannel where
  id : String
  events : List String
  deriving DecidableEq, Repr

structure NotificationDelivery where
  channelId : String
  kind : String
  payload : NotificationMessage
  nextAttemptAt : Int
  createdAt : Int
  deriving DecidableEq, Repr

/-- What a channel's rate limit lets through. -/
structure Limited where
  send : List NotificationMessage
  suppressed : Nat
  notice : Option NotificationMessage

/-- At most so many messages a minute to one channel, and once a minute a line that says so. -/
def limitMessages (messages : List NotificationMessage) (already : Nat) (noticed : Bool)
    (limit : Nat) (at_ : Int) : Limited :=
  let room := limit - already
  if messages.length ≤ room then ⟨messages, 0, none⟩
  else
    let suppressed := messages.length - room
    let plural := if suppressed = 1 then "" else "s"
    { send := messages.take room
      suppressed
      notice := if noticed then none else some
        { kind := "notifications.suppressed"
          at_
          tone := "warning"
          title := s!"{suppressed} more notification{plural} not sent"
          text := s!"Geeboard sends at most {limit} messages a minute to one channel, and " ++
            s!"{suppressed} more happened. Look at the activity log in the panel for the rest."
          count := some suppressed } }

variable {Id Detail : Type} [LinearOrder Id]

/-! ### What a pass reads -/

/-- The place of a row in the order the log is read in. -/
def ActivityEvent.key (row : ActivityEvent Id Detail) : Int ×ₗ Id := toLex (row.createdAt, row.id)

/-- Whether a row is one the notifier reads. -/
def ActivityEvent.isRead (row : ActivityEvent Id Detail) : Bool :=
  AUDIT_ACTIONS_READ.contains row.action

/-- Whether a row stands after the cursor. -/
def NotificationCursor.isBefore (cursor : NotificationCursor Id) (row : ActivityEvent Id Detail) :
    Bool :=
  decide (cursor.lastEventAt < row.createdAt) ||
    cursor.lastEventId.any fun id => decide (row.createdAt = cursor.lastEventAt ∧ id < row.id)

/-- The next rows after the cursor that are no younger than a moment. -/
def nextBatch (rows : List (ActivityEvent Id Detail)) (cursor : NotificationCursor Id)
    (until_ : Int) : List (ActivityEvent Id Detail) :=
  ((rows.filter fun row => row.isRead && decide (row.createdAt ≤ until_) && cursor.isBefore row)
    |>.insertionSort fun first second => first.key ≤ second.key).take BATCH

/-! ### Passes -/

/-- What a pass is about to ask: the cursor, to make one, the rows after it, the channels, how much
a channel has had, or to write. -/
inductive Phase (Id Detail : Type) where
  | looking
  | creating
  | reading (cursor : NotificationCursor Id)
  | asking (rows : List (ActivityEvent Id Detail))
  | counting (rows : List (ActivityEvent Id Detail)) (messages : List NotificationMessage)
      (channels : List NotificationChannel) (queue : List NotificationDelivery)

structure Pass (Id Detail : Type) where
  now : Int
  settleMs : Int
  phase : Phase Id Detail

/-- The moment no row read by a pass is younger than. -/
def Pass.until_ (pass : Pass Id Detail) : Int := pass.now - pass.settleMs

/-- A pass that is done: what it read and what it queued. -/
structure Finished (Id Detail : Type) where
  until_ : Int
  rows : List (ActivityEvent Id Detail)
  queue : List NotificationDelivery

/-- The tables and the pass under way. Remembered besides: where the first pass started, the
passes that are done, the moments the log was looked at up to, and the rows that were written
after it had been looked at for them. -/
structure State (Id Detail : Type) where
  rows : List (ActivityEvent Id Detail)
  cursor : Option (NotificationCursor Id)
  deliveries : List NotificationDelivery
  pass : Option (Pass Id Detail)
  start : Option Int
  done : List (Finished Id Detail)
  looked : List Int
  late : List Id

def State.empty : State Id Detail := ⟨[], none, [], none, none, [], [], []⟩

/-- Somebody writes a row; a pass begins, takes its next step, or fails there. A transaction that
is done although its answer is lost is done. -/
inductive Event (Id Detail : Type) where
  | write (row : ActivityEvent Id Detail)
  | begin_ (now settleMs : Int)
  | look
  | create
  | read
  | channels (enabled : List NotificationChannel)
  | count (already : Nat) (noticed : Bool)
  | commit
  | fail

/-- The messages of a batch for a channel. -/
def wantedBy (channel : NotificationChannel) (messages : List NotificationMessage) :
    List NotificationMessage :=
  messages.filter fun message => channel.events.contains message.kind

/-- What is queued for a channel. -/
def queueFor (channel : NotificationChannel) (messages : List NotificationMessage) (already : Nat)
    (noticed : Bool) (now : Int) : List NotificationDelivery :=
  let limited := limitMessages (wantedBy channel messages) already noticed
    RATE_LIMIT_PER_MINUTE now
  (limited.send ++ limited.notice.toList).map fun message =>
    ⟨channel.id, message.kind, message, now, now⟩

section Step

variable (messagesFor : List (ActivityEvent Id Detail) → List NotificationMessage)

/-- The pass under way goes on in another phase. -/
def State.to_ (state : State Id Detail) (pass : Pass Id Detail) (phase : Phase Id Detail) :
    State Id Detail :=
  { state with pass := some { pass with phase } }

/-- One step of the pass under way. -/
def passStep (state : State Id Detail) (pass : Pass Id Detail) :
    Event Id Detail → Option (State Id Detail)
  | .look =>
    match pass.phase with
    | .looking => some (state.to_ pass ((state.cursor.map Phase.reading).getD .creating))
    | _ => none
  | .create =>
    match pass.phase with
    | .creating => some { state with
        cursor := some ⟨pass.until_, none⟩, start := some pass.until_, pass := none }
    | _ => none
  | .read =>
    match pass.phase with
    | .reading cursor =>
      let rows := nextBatch state.rows cursor pass.until_
      let state := { state with looked := pass.until_ :: state.looked }
      some (if rows.isEmpty then
          { state with pass := none, done := state.done ++ [⟨pass.until_, [], []⟩] }
        else state.to_ pass (.asking rows))
    | _ => none
  | .channels enabled =>
    match pass.phase with
    | .asking rows =>
      let fresh := rows.filter fun row => decide (pass.now - row.createdAt ≤ NEWS_MAX_AGE_MS)
      let messages := if enabled.isEmpty then [] else messagesFor fresh
      let wanting := enabled.filter fun channel => !(wantedBy channel messages).isEmpty
      some (state.to_ pass (.counting rows messages wanting []))
    | _ => none
  | .count already noticed =>
    match pass.phase with
    | .counting rows messages (channel :: channels) queue =>
      some (state.to_ pass (.counting rows messages channels
        (queue ++ queueFor channel messages already noticed pass.now)))
    | _ => none
  | .commit =>
    match pass.phase with
    | .counting rows _ [] queue =>
      rows.getLast?.map fun last => { state with
        cursor := some ⟨last.createdAt, some last.id⟩
        deliveries := state.deliveries ++ queue
        pass := none
        done := state.done ++ [⟨pass.until_, rows, queue⟩] }
    | _ => none
  | .fail => some { state with pass := none }
  | _ => none

def step (state : State Id Detail) : Event Id Detail → Option (State Id Detail)
  | .write row =>
    if state.rows.any fun other => other.id = row.id then none
    else some { state with
      rows := state.rows ++ [row]
      late := if state.looked.any fun until_ => row.createdAt ≤ until_ then row.id :: state.late
        else state.late }
  | .begin_ now settleMs =>
    if state.pass.isSome then none else some { state with pass := some ⟨now, settleMs, .looking⟩ }
  | event => state.pass.bind fun pass => passStep messagesFor state pass event

end Step

/-- The rows the passes that are done have read, one after the other. -/
def State.read (state : State Id Detail) : List (ActivityEvent Id Detail) :=
  state.done.flatMap Finished.rows

/-! ### What is to hold -/

/-- A row of an action that is read, newer than where the first pass started, that was there by
the time it had settled. -/
def State.Due (state : State Id Detail) (row : ActivityEvent Id Detail) : Prop :=
  row ∈ state.rows ∧ row.isRead = true ∧ row.id ∉ state.late ∧
    ∃ start, state.start = some start ∧ start < row.createdAt

/-- Every event is announced once, in order. -/
structure Announced (state : State Id Detail) : Prop where
  /-- Rows are read in order, and none twice. -/
  ordered : state.read.Pairwise fun first second => first.key < second.key
  /-- Only rows of the log, newer than the start, are read. -/
  only : ∀ row ∈ state.read, row ∈ state.rows ∧ row.isRead = true ∧
    ∃ start, state.start = some start ∧ start < row.createdAt
  /-- What is due is read exactly when the cursor has moved past it. -/
  passed : ∀ row, state.Due row → (row ∈ state.read ↔
    ∃ cursor, state.cursor = some cursor ∧ cursor.isBefore row = false)
  /-- What is due and not read was left out of full batches only. -/
  waits : ∀ row, state.Due row → row ∉ state.read → ∀ pass ∈ state.done,
    row.createdAt ≤ pass.until_ → pass.rows.length = BATCH
  /-- What is queued is what the passes that moved the cursor have queued. -/
  queued : state.deliveries = state.done.flatMap Finished.queue
  /-- The cursor is where the last row read stands. -/
  cursor : ∀ row ∈ state.read.getLast?, state.cursor = some ⟨row.createdAt, some row.id⟩

/-! ### The order of the log -/

theorem key_lt_iff {first second : ActivityEvent Id Detail} :
    first.key < second.key ↔ first.createdAt < second.createdAt ∨
      first.createdAt = second.createdAt ∧ first.id < second.id :=
  Prod.Lex.toLex_lt_toLex

theorem isBefore_iff {cursor : NotificationCursor Id} {row : ActivityEvent Id Detail} :
    cursor.isBefore row = true ↔ cursor.lastEventAt < row.createdAt ∨
      ∃ id, cursor.lastEventId = some id ∧ row.createdAt = cursor.lastEventAt ∧ id < row.id := by
  unfold NotificationCursor.isBefore
  rw [Bool.or_eq_true_iff, decide_eq_true_iff, Option.any_eq_true]
  refine or_congr Iff.rfl (exists_congr fun id => ?_)
  rw [decide_eq_true_iff]

/-- What stands after a row that is after the cursor is after the cursor. -/
theorem isBefore_of_le {cursor : NotificationCursor Id} {first second : ActivityEvent Id Detail}
    (before : cursor.isBefore first = true) (le : first.key ≤ second.key) :
    cursor.isBefore second = true := by
  rw [isBefore_iff] at before ⊢
  have orders : first.createdAt < second.createdAt ∨
      first.createdAt = second.createdAt ∧ first.id ≤ second.id := Prod.Lex.toLex_le_toLex.mp le
  obtain later | ⟨id, isId, same, less⟩ := before
  · refine Or.inl ?_
    obtain further | ⟨alike, -⟩ := orders <;> omega
  · obtain further | ⟨alike, above⟩ := orders
    · exact Or.inl (by omega)
    · exact Or.inr ⟨id, isId, alike ▸ same, lt_of_lt_of_le less above⟩

/-- The cursor at a row is before what stands after that row. -/
theorem isBefore_at {last row : ActivityEvent Id Detail} :
    (NotificationCursor.mk last.createdAt (some last.id)).isBefore row = true ↔
      last.key < row.key := by
  rw [isBefore_iff, key_lt_iff]
  refine or_congr Iff.rfl ⟨?_, ?_⟩
  · rintro ⟨id, isId, same, less⟩
    obtain rfl := some.inj isId
    exact ⟨same.symm, less⟩
  · rintro ⟨same, less⟩
    exact ⟨last.id, rfl, same.symm, less⟩

/-! ### A batch -/

/-- What a batch is to the log, the late rows in it, and the cursor it was read after. -/
structure BatchFits (log : List (ActivityEvent Id Detail)) (late : List Id)
    (cursor : NotificationCursor Id) (until_ : Int) (rows : List (ActivityEvent Id Detail)) :
    Prop where
  sorted : rows.Pairwise fun first second => first.key < second.key
  each : ∀ row ∈ rows, row ∈ log ∧ row.isRead = true ∧ row.createdAt ≤ until_ ∧
    cursor.isBefore row = true
  covers : ∀ row ∈ log, row.isRead = true → row.id ∉ late →
    cursor.isBefore row = true → row ∈ rows ∨ (∀ other ∈ rows, other.key < row.key) ∧
      (row.createdAt ≤ until_ → rows.length = BATCH)

/-- The rows a batch is taken from, in order. -/
theorem sorted_of_distinct {rows : List (ActivityEvent Id Detail)}
    (distinct : (rows.map ActivityEvent.id).Nodup) (wanted : ActivityEvent Id Detail → Bool) :
    ((rows.filter wanted).insertionSort fun first second => first.key ≤ second.key).Pairwise
      fun first second => first.key < second.key := by
  have total : Std.Total fun first second : ActivityEvent Id Detail => first.key ≤ second.key :=
    ⟨fun first second => le_total first.key second.key⟩
  have trans : IsTrans (ActivityEvent Id Detail) fun first second => first.key ≤ second.key :=
    ⟨fun _ _ _ => le_trans⟩
  have apart : ((rows.filter wanted).insertionSort fun first second =>
      first.key ≤ second.key).Pairwise fun first second => first.id ≠ second.id := by
    have among := (filter_sublist (l := rows) (p := wanted)).map ActivityEvent.id
    refine pairwise_map.mp ?_
    exact ((perm_insertionSort _ _).map _).nodup_iff.mpr (distinct.sublist among)
  refine (List.pairwise_insertionSort _ _).imp₂ (fun first second le different => ?_) apart
  exact lt_of_le_of_ne le fun same => different (congrArg (fun key => (ofLex key).2) same)

theorem nextBatch_fits {log : List (ActivityEvent Id Detail)}
    (distinct : (log.map ActivityEvent.id).Nodup) (late : List Id)
    (cursor : NotificationCursor Id) (until_ : Int) :
    BatchFits log late cursor until_ (nextBatch log cursor until_) := by
  have sorted := sorted_of_distinct distinct fun row =>
    row.isRead && decide (row.createdAt ≤ until_) && cursor.isBefore row
  have mem {row : ActivityEvent Id Detail} (rowIn : row ∈ nextBatch log cursor until_) :
      row ∈ log ∧ row.isRead = true ∧ row.createdAt ≤ until_ ∧
        cursor.isBefore row = true := by
    obtain ⟨isRow, wanted⟩ := mem_filter.mp
      ((perm_insertionSort _ _).subset (mem_of_mem_take rowIn))
    obtain ⟨first, before⟩ := Bool.and_eq_true_iff.mp wanted
    obtain ⟨read, settled⟩ := Bool.and_eq_true_iff.mp first
    exact ⟨isRow, read, of_decide_eq_true settled, before⟩
  refine ⟨sorted.sublist (take_sublist _ _), fun row rowIn => mem rowIn,
    fun row isRow read _ before => ?_⟩
  · by_cases settled : row.createdAt ≤ until_
    · have wanted : row ∈ log.filter fun row =>
          row.isRead && decide (row.createdAt ≤ until_) && cursor.isBefore row := by
        refine mem_filter.mpr ⟨isRow, ?_⟩
        rw [read, before, decide_eq_true settled]
        rfl
      have among := (perm_insertionSort (fun first second => first.key ≤ second.key)
        (log.filter fun row =>
          row.isRead && decide (row.createdAt ≤ until_) && cursor.isBefore row)).symm.subset wanted
      rw [← take_append_drop BATCH (List.insertionSort _ _)] at among sorted
      obtain taken | left := mem_append.mp among
      · exact Or.inl taken
      · refine Or.inr ⟨fun other otherIn => ?_, fun _ => ?_⟩
        · exact (pairwise_append.mp sorted).2.2 other otherIn row left
        · have longer := length_pos_of_mem left
          rw [length_drop] at longer
          unfold nextBatch
          rw [length_take]
          omega
    · refine Or.inr ⟨fun other otherIn => ?_, fun early => absurd early settled⟩
      obtain ⟨-, -, otherSettled, -⟩ := mem otherIn
      exact key_lt_iff.mpr (Or.inl (lt_of_le_of_lt otherSettled (not_le.mp settled)))

/-! ### What every step keeps -/

/-- What a pass knows is so, whatever has been written meanwhile. -/
def PhaseFits (state : State Id Detail) (pass : Pass Id Detail) : Prop :=
  match pass.phase with
  | .looking => True
  | .creating => state.cursor = none
  | .reading cursor => state.cursor = some cursor
  | .asking rows | .counting rows _ _ _ =>
    pass.until_ ∈ state.looked ∧ rows ≠ [] ∧
      ∃ cursor, state.cursor = some cursor ∧ BatchFits state.rows state.late cursor pass.until_ rows

structure Kept (state : State Id Detail) : Prop where
  distinct : (state.rows.map ActivityEvent.id).Nodup
  unread : state.cursor = none → state.start = none ∧ state.done = []
  started : ∀ cursor, state.cursor = some cursor → ∃ start, state.start = some start ∧
    (cursor = ⟨start, none⟩ ∨
      start < cursor.lastEventAt ∧ ∃ until_ ∈ state.looked, cursor.lastEventAt ≤ until_)
  ordered : state.read.Pairwise fun first second => first.key < second.key
  only : ∀ row ∈ state.read, row ∈ state.rows ∧ row.isRead = true ∧
    ∃ start, state.start = some start ∧ start < row.createdAt
  behind : ∀ row ∈ state.read, ∀ cursor, state.cursor = some cursor →
    cursor.isBefore row = false
  reaches : ∀ row, state.Due row → ∀ cursor, state.cursor = some cursor →
    cursor.isBefore row = false → row ∈ state.read
  waits : ∀ row, state.Due row → row ∉ state.read → ∀ pass ∈ state.done,
    row.createdAt ≤ pass.until_ → pass.rows.length = BATCH
  looks : ∀ pass ∈ state.done, pass.until_ ∈ state.looked
  queued : state.deliveries = state.done.flatMap Finished.queue
  last : ∀ row ∈ state.read.getLast?, state.cursor = some ⟨row.createdAt, some row.id⟩
  fits : ∀ pass, state.pass = some pass → PhaseFits state pass

variable {state next : State Id Detail}

theorem Kept.announced (kept : Kept state) : Announced state where
  ordered := kept.ordered
  only := kept.only
  waits := kept.waits
  queued := kept.queued
  cursor := kept.last
  passed row due := by
    obtain ⟨start, isStart, -⟩ := due.2.2.2
    rcases isCursor : state.cursor with _ | cursor
    · rw [(kept.unread isCursor).1] at isStart
      cases isStart
    · refine ⟨fun read => ⟨cursor, rfl, kept.behind row read cursor isCursor⟩, ?_⟩
      rintro ⟨_, ⟨⟩, behind⟩
      exact kept.reaches row due cursor isCursor behind

theorem kept_empty : Kept (State.empty : State Id Detail) where
  distinct := nodup_nil
  unread _ := ⟨rfl, rfl⟩
  started _ := by rintro ⟨⟩
  ordered := List.Pairwise.nil
  only _ := by rintro ⟨⟩
  behind _ := by rintro ⟨⟩
  reaches _ := by rintro ⟨⟨⟩, -⟩
  waits _ := by rintro ⟨⟨⟩, -⟩
  looks _ := by rintro ⟨⟩
  queued := rfl
  last _ := by rintro ⟨⟩
  fits _ := by rintro ⟨⟩

/-- A pass that goes on, or ends without having written. -/
theorem Kept.setPass (kept : Kept state) (pass : Option (Pass Id Detail))
    (fits : ∀ other, pass = some other → PhaseFits state other) :
    Kept { state with pass } where
  distinct := kept.distinct
  unread := kept.unread
  started := kept.started
  ordered := kept.ordered
  only := kept.only
  behind := kept.behind
  reaches := kept.reaches
  waits := kept.waits
  looks := kept.looks
  queued := kept.queued
  last := kept.last
  fits := fits

/-! ### A row is written -/

/-- The log with one more row, which is late if it had been looked for. -/
def State.withRow (state : State Id Detail) (row : ActivityEvent Id Detail) : State Id Detail :=
  { state with
    rows := state.rows ++ [row]
    late := if state.looked.any fun until_ => row.createdAt ≤ until_ then row.id :: state.late
      else state.late }

section Write

variable {row other : ActivityEvent Id Detail}

omit [LinearOrder Id] in
theorem not_late_withRow (timely : other.id ∉ (state.withRow row).late) : other.id ∉ state.late := by
  unfold State.withRow at timely
  dsimp only at timely
  split at timely
  · exact fun late => timely (mem_cons_of_mem _ late)
  · exact timely

omit [LinearOrder Id] in
/-- A row that is not late is younger than all that has been looked for. -/
theorem lt_of_not_late (timely : row.id ∉ (state.withRow row).late) {until_ : Int}
    (looked : until_ ∈ state.looked) : until_ < row.createdAt := by
  by_contra early
  unfold State.withRow at timely
  dsimp only at timely
  rw [if_pos (List.any_eq_true.mpr ⟨until_, looked, decide_eq_true (not_lt.mp early)⟩)] at timely
  exact timely mem_cons_self

theorem batchFits_withRow {cursor : NotificationCursor Id} {until_ : Int}
    {rows : List (ActivityEvent Id Detail)} (looked : until_ ∈ state.looked)
    (fits : BatchFits state.rows state.late cursor until_ rows) :
    BatchFits (state.withRow row).rows (state.withRow row).late cursor until_ rows := by
  refine ⟨fits.sorted, fun other otherIn => ?_, fun other isOther read timely before => ?_⟩
  · obtain ⟨isRow, rest⟩ := fits.each other otherIn
    exact ⟨mem_append_left _ isRow, rest⟩
  · obtain old | new := mem_append.mp isOther
    · exact fits.covers other old read (not_late_withRow timely) before
    · obtain rfl := mem_singleton.mp new
      have younger := lt_of_not_late timely looked
      refine Or.inr ⟨fun third thirdIn => ?_, fun early => absurd younger (not_lt.mpr early)⟩
      obtain ⟨-, -, settled, -⟩ := fits.each third thirdIn
      exact key_lt_iff.mpr (Or.inl (lt_of_le_of_lt settled younger))

omit [LinearOrder Id] in
theorem due_withRow (due : (state.withRow row).Due other) :
    state.Due other ∨ other = row ∧ row.id ∉ (state.withRow row).late := by
  obtain ⟨isOther, read, timely, newer⟩ := due
  obtain old | new := mem_append.mp isOther
  · exact Or.inl ⟨old, read, not_late_withRow timely, newer⟩
  · obtain rfl := mem_singleton.mp new
    exact Or.inr ⟨rfl, timely⟩

theorem kept_withRow (kept : Kept state) (fresh : ∀ old ∈ state.rows, old.id ≠ row.id) :
    Kept (state.withRow row) where
  distinct := by
    unfold State.withRow
    rw [map_append, nodup_append]
    refine ⟨kept.distinct, nodup_singleton _, fun id isId other isOther same => ?_⟩
    obtain ⟨old, oldIn, rfl⟩ := List.mem_map.mp isId
    obtain rfl := mem_singleton.mp isOther
    exact fresh old oldIn same
  unread := kept.unread
  started := kept.started
  ordered := kept.ordered
  only other read := by
    obtain ⟨isRow, rest⟩ := kept.only other read
    exact ⟨mem_append_left _ isRow, rest⟩
  behind := kept.behind
  reaches other due cursor isCursor behind := by
    obtain old | ⟨rfl, timely⟩ := due_withRow due
    · exact kept.reaches other old cursor isCursor behind
    · exfalso
      obtain ⟨start, isStart, newer⟩ := due.2.2.2
      obtain ⟨begun, isBegun, place⟩ := kept.started cursor isCursor
      obtain rfl := some.inj (isStart.symm.trans isBegun)
      have before : cursor.isBefore other = true := by
        refine isBefore_iff.mpr (Or.inl ?_)
        obtain rfl | ⟨-, until_, looked, settled⟩ := place
        · exact newer
        · exact lt_of_le_of_lt settled (lt_of_not_late timely looked)
      rw [before] at behind
      cases behind
  waits other due unread pass isDone early := by
    obtain old | ⟨rfl, timely⟩ := due_withRow due
    · exact kept.waits other old unread pass isDone early
    · exact absurd (lt_of_not_late timely (kept.looks pass isDone)) (not_lt.mpr early)
  looks := kept.looks
  queued := kept.queued
  last := kept.last
  fits pass isPass := by
    have old := kept.fits pass isPass
    unfold PhaseFits at old ⊢
    split at old
    · trivial
    · exact old
    · exact old
    all_goals
      obtain ⟨looked, some_, cursor, isCursor, fits⟩ := old
      exact ⟨looked, some_, cursor, isCursor, batchFits_withRow looked fits⟩

end Write

/-! ### A pass goes on -/

section Passes

variable {pass : Pass Id Detail}

/-- The first look makes the cursor. -/
theorem kept_create (kept : Kept state) (none : state.cursor = none) (start : Int) :
    Kept { state with cursor := some ⟨start, .none⟩, start := some start, pass := .none } := by
  obtain ⟨-, nothing⟩ := kept.unread none
  have unread : state.read = [] := by
    unfold State.read
    rw [nothing, flatMap_nil]
  have unreadRow {row : ActivityEvent Id Detail} (read : row ∈ state.read) : False := by
    rw [unread] at read
    cases read
  exact
    { distinct := kept.distinct
      unread := by rintro ⟨⟩
      started := by
        rintro _ ⟨⟩
        exact ⟨start, rfl, Or.inl rfl⟩
      ordered := kept.ordered
      only := fun row read => (unreadRow read).elim
      behind := fun row read => (unreadRow read).elim
      reaches := by
        rintro row ⟨-, -, -, _, ⟨⟩, newer⟩ _ ⟨⟩ behind
        rw [isBefore_iff.mpr (Or.inl newer)] at behind
        cases behind
      waits := fun row _ _ pass isDone => by
        have isDone : pass ∈ state.done := isDone
        rw [nothing] at isDone
        cases isDone
      looks := kept.looks
      queued := kept.queued
      last := fun row isLast => (unreadRow (mem_of_mem_getLast? isLast)).elim
      fits := by rintro _ ⟨⟩ }

/-- The log is looked at up to one more moment. -/
theorem Kept.lookedAt (kept : Kept state) (until_ : Int) (free : state.pass = none) :
    Kept { state with looked := until_ :: state.looked } where
  distinct := kept.distinct
  unread := kept.unread
  started cursor isCursor := by
    obtain ⟨start, isStart, first | ⟨newer, bound, looked, le⟩⟩ := kept.started cursor isCursor
    · exact ⟨start, isStart, Or.inl first⟩
    · exact ⟨start, isStart, Or.inr ⟨newer, bound, mem_cons_of_mem _ looked, le⟩⟩
  ordered := kept.ordered
  only := kept.only
  behind := kept.behind
  reaches := kept.reaches
  waits := kept.waits
  looks pass isDone := mem_cons_of_mem _ (kept.looks pass isDone)
  queued := kept.queued
  last := kept.last
  fits pass isPass := by
    have isPass : state.pass = some pass := isPass
    rw [free] at isPass
    cases isPass

/-- The passes that are done, with one more. -/
def State.finish (state : State Id Detail) (finished : Finished Id Detail) : State Id Detail :=
  { state with pass := none, done := state.done ++ [finished] }

omit [LinearOrder Id] in
theorem read_finish (state : State Id Detail) (finished : Finished Id Detail) :
    (state.finish finished).read = state.read ++ finished.rows := by
  unfold State.finish State.read
  rw [flatMap_append, flatMap_singleton]

/-- A pass that finds nothing is done. -/
theorem kept_nothing (kept : Kept state) {cursor : NotificationCursor Id}
    (isCursor : state.cursor = some cursor) {until_ : Int} (looked : until_ ∈ state.looked)
    (fits : BatchFits state.rows state.late cursor until_ []) :
    Kept (state.finish ⟨until_, [], []⟩) := by
  have same : (state.finish ⟨until_, [], []⟩).read = state.read :=
    (read_finish state _).trans (append_nil _)
  exact
    { distinct := kept.distinct
      unread := fun unread => absurd (isCursor.symm.trans unread) (some_ne_none cursor)
      started := kept.started
      ordered := same ▸ kept.ordered
      only := same ▸ kept.only
      behind := same ▸ kept.behind
      reaches := same ▸ kept.reaches
      waits := fun row due unread pass isDone early => by
        rw [same] at unread
        obtain old | new := mem_append.mp isDone
        · exact kept.waits row due unread pass old early
        · obtain rfl := mem_singleton.mp new
          have before : cursor.isBefore row = true := by
            by_contra behind
            exact unread (kept.reaches row due cursor isCursor (Bool.eq_false_of_not_eq_true behind))
          obtain taken | ⟨-, full⟩ := fits.covers row due.1 due.2.1 due.2.2.1 before
          · cases taken
          · exact full early
      looks := fun pass isDone => by
        obtain old | new := mem_append.mp isDone
        · exact kept.looks pass old
        · rw [mem_singleton.mp new]
          exact looked
      queued := by
        unfold State.finish
        rw [flatMap_append, flatMap_singleton, append_nil]
        exact kept.queued
      last := same ▸ kept.last
      fits := by rintro _ ⟨⟩ }

/-- The last of some rows in order comes after none of them. -/
theorem le_last {rows : List (ActivityEvent Id Detail)}
    (sorted : rows.Pairwise fun first second => first.key < second.key)
    {last row : ActivityEvent Id Detail} (isLast : rows.getLast? = some last)
    (rowIn : row ∈ rows) : row.key ≤ last.key := by
  obtain ⟨before, rfl⟩ := getLast?_eq_some_iff.mp isLast
  obtain early | same := mem_append.mp rowIn
  · exact le_of_lt ((pairwise_append.mp sorted).2.2 row early last (mem_singleton_self _))
  · rw [mem_singleton.mp same]

/-- What stands after the cursor is newer than the start. -/
theorem start_lt {cursor : NotificationCursor Id} {start : Int} {bounded : Prop}
    {row : ActivityEvent Id Detail}
    (place : cursor = ⟨start, none⟩ ∨ start < cursor.lastEventAt ∧ bounded)
    (before : cursor.isBefore row = true) : start < row.createdAt := by
  obtain later | ⟨id, isId, same, -⟩ := isBefore_iff.mp before
  · obtain rfl | ⟨newer, -⟩ := place
    · exact later
    · exact lt_trans newer later
  · obtain rfl | ⟨newer, -⟩ := place
    · cases isId
    · rwa [same]

/-- The cursor moves past a batch together with what is queued for it. -/
theorem kept_commit (kept : Kept state) {cursor : NotificationCursor Id}
    (isCursor : state.cursor = some cursor) {until_ : Int} (looked : until_ ∈ state.looked)
    {rows : List (ActivityEvent Id Detail)}
    (fits : BatchFits state.rows state.late cursor until_ rows)
    {last : ActivityEvent Id Detail} (isLast : rows.getLast? = some last)
    (queue : List NotificationDelivery) :
    Kept { state.finish ⟨until_, rows, queue⟩ with
      cursor := some ⟨last.createdAt, some last.id⟩
      deliveries := state.deliveries ++ queue } := by
  have read : (state.finish ⟨until_, rows, queue⟩).read = state.read ++ rows :=
    read_finish state _
  have lastIn := mem_of_getLast? isLast
  obtain ⟨-, -, lastSettled, lastBefore⟩ := fits.each last lastIn
  -- What the cursor was past it is past still.
  have past {row : ActivityEvent Id Detail} (behind : cursor.isBefore row = false) :
      row.key ≤ last.key := by
    by_contra ahead
    rw [isBefore_of_le lastBefore (le_of_lt (not_le.mp ahead))] at behind
    cases behind
  have old {row : ActivityEvent Id Detail} (isRead : row ∈ state.read) :
      cursor.isBefore row = false := kept.behind row isRead cursor isCursor
  have reached {row : ActivityEvent Id Detail} (due : state.Due row)
      (le : row.key ≤ last.key) : row ∈ state.read ++ rows := by
    rcases before : cursor.isBefore row with _ | _
    · exact mem_append_left _ (kept.reaches row due cursor isCursor before)
    · obtain taken | ⟨above, -⟩ := fits.covers row due.1 due.2.1 due.2.2.1 before
      · exact mem_append_right _ taken
      · exact absurd le (not_le.mpr (above last lastIn))
  refine
    { distinct := kept.distinct
      unread := by rintro ⟨⟩
      started := ?started
      ordered := ?ordered
      only := ?only
      behind := ?behind
      reaches := ?reaches
      waits := ?waits
      looks := ?looks
      queued := ?queued
      last := ?last
      fits := by rintro _ ⟨⟩ }
  case started =>
    rintro _ ⟨⟩
    obtain ⟨start, isStart, place⟩ := kept.started cursor isCursor
    exact ⟨start, isStart, Or.inr ⟨start_lt place lastBefore, until_, looked, lastSettled⟩⟩
  case ordered =>
    show (State.read (state.finish _)).Pairwise _
    rw [read, pairwise_append]
    refine ⟨kept.ordered, fits.sorted, fun first isRead second isRow => ?_⟩
    by_contra notBefore
    have behind := old isRead
    rw [isBefore_of_le (fits.each second isRow).2.2.2 (not_lt.mp notBefore)] at behind
    cases behind
  case only =>
    show ∀ row ∈ State.read (state.finish _), _
    rw [read]
    intro row isRead
    obtain isOld | isNew := mem_append.mp isRead
    · exact kept.only row isOld
    · obtain ⟨isRow, isRead, -, before⟩ := fits.each row isNew
      obtain ⟨start, isStart, place⟩ := kept.started cursor isCursor
      exact ⟨isRow, isRead, start, isStart, start_lt place before⟩
  case behind =>
    show ∀ row ∈ State.read (state.finish _), _
    rw [read]
    rintro row isRead _ ⟨⟩
    refine Bool.eq_false_of_not_eq_true fun before => ?_
    refine absurd (isBefore_at.mp before) (not_lt.mpr ?_)
    obtain isOld | isNew := mem_append.mp isRead
    · exact past (old isOld)
    · exact le_last fits.sorted isLast isNew
  case reaches =>
    show ∀ row, _ → ∀ _, _ → _ → row ∈ State.read (state.finish _)
    rw [read]
    rintro row due _ ⟨⟩ behind
    refine reached due (not_lt.mp fun ahead => ?_)
    rw [isBefore_at.mpr ahead] at behind
    cases behind
  case waits =>
    show ∀ row, _ → row ∉ State.read (state.finish _) → _
    rw [read]
    intro row due unread pass isDone early
    obtain isOld | isNew := mem_append.mp isDone
    · exact kept.waits row due (fun isRead => unread (mem_append_left _ isRead)) pass isOld
        early
    · obtain rfl := mem_singleton.mp isNew
      have ahead : last.key < row.key := not_le.mp fun le => unread (reached due le)
      obtain taken | ⟨-, full⟩ := fits.covers row due.1 due.2.1 due.2.2.1
        (isBefore_of_le lastBefore (le_of_lt ahead))
      · exact absurd (mem_append_right _ taken) unread
      · exact full early
  case looks =>
    intro pass isDone
    obtain isOld | isNew := mem_append.mp isDone
    · exact kept.looks pass isOld
    · rw [mem_singleton.mp isNew]
      exact looked
  case queued =>
    show state.deliveries ++ queue = (state.done ++ [Finished.mk until_ rows queue]).flatMap _
    rw [flatMap_append, flatMap_singleton, kept.queued]
  case last =>
    show ∀ row ∈ (State.read (state.finish _)).getLast?, _
    rw [read]
    intro row isRow
    rw [getLast?_append, isLast, some_or] at isRow
    obtain rfl := some.inj isRow
    rfl

end Passes

/-! ### Every run -/

section Run

variable {messagesFor : List (ActivityEvent Id Detail) → List NotificationMessage}

theorem kept_read (kept : Kept state) {pass : Pass Id Detail}
    (taken : passStep messagesFor state pass .read = some next) (isPass : state.pass = some pass) :
    Kept next := by
  have fits := kept.fits pass isPass
  unfold PhaseFits at fits
  unfold passStep at taken
  dsimp only at taken
  split at taken
  case h_2 => cases taken
  case h_1 cursor isReading =>
    rw [isReading] at fits
    obtain rfl := some.inj taken
    have looked : Kept { state with looked := pass.until_ :: state.looked, pass := none } :=
      (kept.setPass none (by rintro _ ⟨⟩)).lookedAt pass.until_ rfl
    have batch := nextBatch_fits kept.distinct state.late cursor pass.until_
    split
    case isTrue empty =>
      rw [List.isEmpty_iff.mp empty] at batch
      exact kept_nothing looked fits mem_cons_self batch
    case isFalse some_ =>
      refine looked.setPass _ fun other same => ?_
      obtain rfl := some.inj same
      exact ⟨mem_cons_self, fun empty => some_ (List.isEmpty_iff.mpr empty), cursor, fits,
        batch⟩

theorem Kept.passStep (kept : Kept state) {pass : Pass Id Detail} (isPass : state.pass = some pass)
    {event : Event Id Detail} (taken : passStep messagesFor state pass event = some next) :
    Kept next := by
  have fits := kept.fits pass isPass
  cases event with
  | write row => cases taken
  | begin_ now settleMs => cases taken
  | fail =>
    obtain rfl := some.inj taken
    exact kept.setPass none (by rintro _ ⟨⟩)
  | read => exact kept_read kept taken isPass
  | look =>
    unfold Notify.passStep at taken
    dsimp only at taken
    split at taken
    case h_2 => cases taken
    case h_1 isLooking =>
      obtain rfl := some.inj taken
      refine kept.setPass _ fun other same => ?_
      obtain rfl := some.inj same
      unfold PhaseFits
      rcases isCursor : state.cursor with _ | cursor
      · rfl
      · rfl
  | create =>
    unfold Notify.passStep at taken
    unfold PhaseFits at fits
    dsimp only at taken
    split at taken
    case h_2 => cases taken
    case h_1 isCreating =>
      rw [isCreating] at fits
      obtain rfl := some.inj taken
      exact kept_create kept fits pass.until_
  | channels enabled =>
    unfold Notify.passStep at taken
    unfold PhaseFits at fits
    dsimp only at taken
    split at taken
    case h_2 => cases taken
    case h_1 rows isAsking =>
      rw [isAsking] at fits
      obtain rfl := some.inj taken
      refine kept.setPass _ fun other same => ?_
      obtain rfl := some.inj same
      exact fits
  | count already noticed =>
    unfold Notify.passStep at taken
    unfold PhaseFits at fits
    dsimp only at taken
    split at taken
    case h_2 => cases taken
    case h_1 rows messages channel channels queue isCounting =>
      rw [isCounting] at fits
      obtain rfl := some.inj taken
      refine kept.setPass _ fun other same => ?_
      obtain rfl := some.inj same
      exact fits
  | commit =>
    unfold Notify.passStep at taken
    unfold PhaseFits at fits
    dsimp only at taken
    split at taken
    case h_2 => cases taken
    case h_1 rows messages queue isCounting =>
      rw [isCounting] at fits
      obtain ⟨looked, -, cursor, isCursor, batch⟩ := fits
      obtain ⟨last, isLast, rfl⟩ := map_eq_some_iff.mp taken
      exact kept_commit kept isCursor looked batch isLast queue

theorem Kept.step (kept : Kept state) {event : Event Id Detail}
    (taken : step messagesFor state event = some next) : Kept next := by
  cases event with
  | write row =>
    unfold Notify.step at taken
    dsimp only at taken
    split at taken
    case isTrue => cases taken
    case isFalse fresh =>
      obtain rfl := some.inj taken
      refine kept_withRow kept fun old oldIn same => fresh ?_
      exact List.any_eq_true.mpr ⟨old, oldIn, decide_eq_true same⟩
  | begin_ now settleMs =>
    unfold Notify.step at taken
    dsimp only at taken
    split at taken
    case isTrue => cases taken
    case isFalse =>
      obtain rfl := some.inj taken
      refine kept.setPass _ fun other same => ?_
      obtain rfl := some.inj same
      trivial
  | _ =>
    obtain ⟨pass, isPass, taken⟩ := bind_eq_some_iff.mp taken
    exact kept.passStep isPass taken

/-- Over every run of passes that do not overlap, at any times and failing anywhere, and of rows
written at any time, every event is announced once and in order. -/
theorem announced_once (messagesFor : List (ActivityEvent Id Detail) → List NotificationMessage)
    (events : List (Event Id Detail)) :
    Along (step messagesFor) Announced State.empty events :=
  (along_of_kept (fun _ _ _ kept taken => Kept.step kept taken) kept_empty events).mono
    fun _ kept => kept.announced

end Run

end Geeboard.Notify
