/-
This file proves that what unpacking an archive does depends on the archive's bytes
and not on the chunks they came in.

Where no look at the disk is ever due, the machine is one whose turns do not look
behind what they use, so that any two ways of cutting the same bytes give the same
calls and the same end. With the looks, a run does the same, or a look stops it and
it has made a beginning of it. An archive that is taken as whole has a block that
ends it.
-/

import Geeboard.Agent.Turns

namespace Geeboard.Tar

open Text Feeding List

section
variable (disk : Disk) (directory : Place)

/-! ### More input behind -/

/-- What more input behind a state changes about its turn: nothing, or, where the machine
waits, it goes on from there as if it had had the input at once. -/
def Unhindered (state : Extraction) (more : Bytes) : Prop :=
  ((∀ next, turn disk directory none state ≠ .ok (.wait next)) ∧
    turn disk directory none (state.push more) =
      behind more (turn disk directory none state)) ∨
  ∃ next, turn disk directory none state = .ok (.wait next) ∧
    (next.ended = true → turn disk directory none (state.push more) = .ok (.wait next)) ∧
    (next.ended = false → turn disk directory none (state.push more) =
      turn disk directory none (next.push more))

/-- A machine that waits where it is has lost nothing. -/
theorem unhindered_of_wait {state : Extraction} {more : Bytes} (open' : state.ended = false)
    (waits : turn disk directory none state = .ok (.wait state)) :
    Unhindered disk directory state more :=
  Or.inr ⟨state, waits, fun ended => absurd ended (by rw [open']; decide), fun _ => rfl⟩

theorem unhindered_between {state : Extraction} {more : Bytes} (open' : state.ended = false)
    (between : state.current = none) : Unhindered disk directory state more := by
  have turned := turn_between disk directory none state between
  have pushed := turn_between disk directory none (state.push more) between
  by_cases short : state.pending.length < block
  · refine unhindered_of_wait disk directory open' ?_
    rw [turned, readHeader, if_pos short]
  · have header : (state.push more).pending.take block = state.pending.take block :=
      take_append_of_le_length (by omega)
    have long : ¬(state.push more).pending.length < block := by
      rw [push_pending, length_append]
      omega
    rw [readHeader, if_neg short] at turned
    rw [readHeader, if_neg long] at pushed
    dsimp only at turned pushed
    rw [header] at pushed
    by_cases zero : (state.pending.take block).head? = some 0
    · rw [if_pos zero] at turned pushed
      exact Or.inr ⟨_, turned, fun _ => pushed, fun ended => Bool.noConfusion ended⟩
    · rw [if_neg zero] at turned pushed
      refine Or.inl ⟨?_, ?_⟩
      · intro next waits
        obtain ⟨later, again, _⟩ := beginEntry_spec disk directory (turned.symm.trans waits)
        cases again
      · rw [turned, pushed, ← beginEntry_push, push_pending,
          drop_append_of_le_length (by omega)]
        rfl

theorem unhindered_finishing {state : Extraction} {payload : Payload} {more : Bytes}
    (open' : state.ended = false) (current : state.current = some payload)
    (read : ¬0 < payload.remaining) : Unhindered disk directory state more := by
  have turned := turn_finishing disk directory none state current read
  have pushed := turn_finishing disk directory none (state.push more) current read
  obtain waits | there := finish_waits_or disk state payload
  · exact unhindered_of_wait disk directory open' (turned.trans waits)
  · refine Or.inl ⟨?_, ?_⟩
    · intro next waits
      obtain ⟨later, again, _⟩ := finish_spec disk there (turned.symm.trans waits)
      exact nomatch again
    · rw [turned, pushed, finish_push disk state payload more there]

/-- A piece that is there whole. -/
theorem unhindered_whole {state : Extraction} {payload : Payload} {more : Bytes}
    (open' : state.ended = false) (current : state.current = some payload)
    (left : 0 < payload.remaining) (some' : state.pending ≠ [])
    (whole : payload.remaining.toNat ≤ state.pending.length) :
    Unhindered disk directory state more := by
  have piece : (state.push more).pending.take payload.remaining.toNat =
      state.pending.take payload.remaining.toNat := take_append_of_le_length whole
  have more' : (state.push more).pending ≠ [] := by
    rw [push_pending]
    exact append_ne_nil_of_left_ne_nil some' more
  have size : (state.pending.take payload.remaining.toNat).length = payload.remaining.toNat :=
    length_take_of_le whole
  have received := receive_push disk state none payload
    (state.pending.take payload.remaining.toNat) more (by omega)
  cases took : receive disk none state payload
      (state.pending.take payload.remaining.toNat) with
  | error stopped =>
    rw [took] at received
    have turned := turn_refused disk directory state current left some' took
    have pushed := turn_refused disk directory (state.push more) current left more'
      (by rw [piece]; exact received)
    refine Or.inl ⟨?_, ?_⟩
    · intro next waits
      exact nomatch turned.symm.trans waits
    · rw [turned, pushed]
      rfl
  | ok next =>
    rw [took] at received
    obtain ⟨kind, after, turned⟩ := turn_received disk directory state current left some' took
    obtain ⟨kind', after', pushed⟩ := turn_received disk directory (state.push more)
      current left more' (by rw [piece]; exact received)
    rw [piece] at after' pushed
    have same : payload.after kind' (state.pending.take payload.remaining.toNat) =
        payload.after kind (state.pending.take payload.remaining.toNat) :=
      Option.some.inj (after'.symm.trans after)
    rw [same] at pushed
    have none' : ¬0 < (payload.after kind
        (state.pending.take payload.remaining.toNat)).remaining := by
      show ¬0 < payload.remaining - ((state.pending.take payload.remaining.toNat).length : Int)
      rw [size]
      omega
    rw [if_neg none'] at turned pushed
    obtain waits | there := finish_waits_or disk next
      (payload.after kind (state.pending.take payload.remaining.toNat))
    · have stays : next.ended = false := (receive_spec disk took).2.1.trans open'
      refine Or.inr ⟨next, turned.trans waits, fun ended => ?_, fun _ => ?_⟩
      · exact absurd ended (by rw [stays]; decide)
      · rw [pushed]
        exact (turn_finishing disk directory none (next.push more) after none').symm
    · refine Or.inl ⟨?_, ?_⟩
      · intro later waits
        obtain ⟨later, again, _⟩ := finish_spec disk there (turned.symm.trans waits)
        exact nomatch again
      · rw [turned, pushed, finish_push disk next _ more there]

/-- A piece that is there in part. -/
theorem unhindered_partial {state : Extraction} {payload : Payload} {more : Bytes}
    (open' : state.ended = false) (current : state.current = some payload)
    (left : 0 < payload.remaining) (some' : state.pending ≠ [])
    (part : state.pending.length < payload.remaining.toNat) :
    Unhindered disk directory state more := by
  have all : state.pending.take payload.remaining.toNat = state.pending :=
    take_of_length_le (by omega)
  have piece : (state.push more).pending.take payload.remaining.toNat =
      state.pending ++ more.take (payload.remaining.toNat - state.pending.length) := by
    rw [push_pending, take_append, all]
  have more' : (state.push more).pending ≠ [] := by
    rw [push_pending]
    exact append_ne_nil_of_left_ne_nil some' more
  have received := receive_push disk state none payload state.pending more (le_refl _)
  cases took : receive disk none state payload state.pending with
  | error stopped =>
    rw [took] at received
    have turned := turn_refused disk directory state current left some' (by rw [all]; exact took)
    have pushed := turn_refused disk directory (state.push more) current left more'
      (by rw [piece, receive_append, received]; rfl)
    refine Or.inl ⟨?_, ?_⟩
    · intro next waits
      have impossible := turned.symm.trans waits
      cases impossible
    · rw [turned, pushed]
      rfl
  | ok next =>
    rw [took] at received
    obtain ⟨kind, after, turned⟩ := turn_received disk directory state current left some'
      (by rw [all]; exact took)
    rw [all] at after turned
    have remains : 0 < (payload.after kind state.pending).remaining := by
      show 0 < payload.remaining - (state.pending.length : Int)
      omega
    rw [if_pos remains] at turned
    obtain ⟨empty, ended, _⟩ := receive_spec disk took
    rw [drop_length] at empty
    have stays : next.ended = false := ended.trans open'
    refine Or.inr ⟨next, turned, fun ended => absurd ended (by rw [stays]; decide), fun _ => ?_⟩
    by_cases none' : more = []
    · rw [none', push_nil, push_nil, turned, turn_starved disk directory none next after remains empty]
    · have later : (next.push more).pending ≠ [] := by
        rw [push_pending, empty]
        exact none'
      have rest : (next.push more).pending.take (payload.after kind state.pending).remaining.toNat =
          more.take (payload.remaining.toNat - state.pending.length) := by
        have count : (payload.after kind state.pending).remaining.toNat =
            payload.remaining.toNat - state.pending.length := by
          show (payload.remaining - (state.pending.length : Int)).toNat = _
          omega
        rw [push_pending, empty, count]
        rfl
      have whole : receive disk none (state.push more) payload
          ((state.push more).pending.take payload.remaining.toNat) =
          receive disk none (next.push more) (payload.after kind state.pending)
            ((next.push more).pending.take (payload.after kind state.pending).remaining.toNat) := by
        have taken : receive disk none (state.push more) payload state.pending =
            .ok (next.push more) := received
        rw [piece, rest, receive_append, taken]
        dsimp only
        rw [push_current, after]
      cases took' : receive disk none (next.push more) (payload.after kind state.pending)
          ((next.push more).pending.take (payload.after kind state.pending).remaining.toNat) with
      | error stopped =>
        rw [turn_refused disk directory (state.push more) current left more'
            (whole.trans took'),
          turn_refused disk directory (next.push more) after remains later took']
      | ok final =>
        obtain ⟨kind₁, after₁, turned₁⟩ := turn_received disk directory (state.push more) current left more' (whole.trans took')
        obtain ⟨kind₂, after₂, turned₂⟩ := turn_received disk directory (next.push more) after remains later took'
        rw [turned₁, turned₂, Option.some.inj (after₁.symm.trans after₂)]

/-- More input behind a state hinders nothing. -/
theorem unhindered (state : Extraction) (more : Bytes) (open' : state.ended = false) :
    Unhindered disk directory state more := by
  cases current : state.current with
  | none => exact unhindered_between disk directory open' current
  | some payload =>
    by_cases left : 0 < payload.remaining
    · by_cases empty : state.pending = []
      · exact unhindered_of_wait disk directory open'
          (turn_starved disk directory none state current left empty)
      · by_cases whole : payload.remaining.toNat ≤ state.pending.length
        · exact unhindered_whole disk directory open' current left empty whole
        · exact unhindered_partial disk directory open' current left empty (by omega)
    · exact unhindered_finishing disk directory open' current left

/-- Where no look at the disk is due, the chunks do not matter. -/
theorem machine_lawful : (machine disk directory none).Lawful where
  ends := machine_ends disk directory none
  push_nil := push_nil
  push_push := push_push
  push_done _ _ := rfl
  stays _ _ open' turned := (turn_again_ended disk directory turned).trans open'
  stops state stopped more open' turned := by
    obtain ⟨_, same⟩ | ⟨next, waits, _⟩ := unhindered disk directory state more open'
    · exact same.trans (congrArg (behind more) turned)
    · exact nomatch waits.symm.trans turned
  goesOn state next more open' turned := by
    obtain ⟨_, same⟩ | ⟨next, waits, _⟩ := unhindered disk directory state more open'
    · exact same.trans (congrArg (behind more) turned)
    · exact nomatch waits.symm.trans turned
  waits state next more open' turned unfinished := by
    obtain ⟨never, _⟩ | ⟨next', waits, _, same⟩ := unhindered disk directory state more open'
    · exact absurd turned (never next)
    · cases waits.symm.trans turned
      exact same unfinished
  finishes state next more open' turned finished := by
    obtain ⟨never, _⟩ | ⟨next', waits, same, _⟩ := unhindered disk directory state more open'
    · exact absurd turned (never next)
    · cases waits.symm.trans turned
      exact same finished

/-! ### The log only grows -/

/-- The log of what a step gives, stopped or not. -/
abbrev logOf {Value : Type} (log : Value → List Effect) : Fallible Value → List Effect :=
  Machine.recordOf log Prod.fst

/-- The log after a turn. -/
abbrev turnLog : Fallible (Turn Extraction) → List Effect :=
  Machine.recordOfTurn Extraction.log Prod.fst

theorem writeBytes_grows (log : List Effect) (bytes : Bytes) :
    log <+: logOf id (writeBytes disk log bytes) := by
  induction bytes generalizing log with
  | nil => exact prefix_rfl
  | cons byte bytes inductionHypothesis =>
    unfold writeBytes
    split
    · exact prefix_rfl
    · exact (prefix_append log _).trans (inductionHypothesis _)

theorem makeDirectory_grows (log : List Effect) (path : Place) :
    log <+: logOf id (makeDirectory disk log path) := by
  unfold makeDirectory
  split
  · exact prefix_rfl
  · exact prefix_append _ _

theorem closeSink_grows (log : List Effect) : log <+: logOf id (closeSink disk log) := by
  unfold closeSink
  split
  · exact prefix_rfl
  · exact prefix_append _ _

theorem receive_grows (state : Extraction) (payload : Payload) (piece : Bytes) :
    state.log <+: logOf Extraction.log (receive disk none state payload piece) := by
  have written := writeBytes_grows disk state.log piece
  unfold receive
  dsimp only
  split
  · rw [put_unlooked]
    cases wrote : writeBytes disk state.log piece with
    | error stopped =>
      rw [wrote] at written
      exact written
    | ok log =>
      rw [wrote] at written
      exact written
  · exact prefix_rfl

theorem finish_grows (state : Extraction) (payload : Payload) :
    state.log <+: turnLog (finish disk state payload) := by
  have closed := closeSink_grows disk state.log
  unfold finish
  split
  · exact prefix_rfl
  · dsimp only
    split
    · cases closing : closeSink disk state.log with
      | error stopped =>
        rw [closing] at closed
        exact closed
      | ok log =>
        rw [closing] at closed
        exact closed
    · split <;> exact prefix_rfl

theorem beginEntry_grows (state : Extraction) (header : Bytes) :
    state.log <+: turnLog (beginEntry disk directory state header) := by
  unfold beginEntry
  dsimp only
  split
  · split <;> exact prefix_rfl
  · split
    · exact prefix_rfl
    · next destination _ =>
      have made := makeDirectory_grows disk state.log destination
      have parent := makeDirectory_grows disk state.log destination.parent
      split
      · cases making : makeDirectory disk state.log destination with
        | error stopped =>
          rw [making] at made
          exact made
        | ok log =>
          rw [making] at made
          exact made
      · cases making : makeDirectory disk state.log destination.parent with
        | error stopped =>
          rw [making] at parent
          exact parent
        | ok log =>
          rw [making] at parent
          have opened : state.log <+: log ++ [.opened destination] :=
            parent.trans (prefix_append _ _)
          have closed := closeSink_grows disk (log ++ [.opened destination])
          dsimp only
          split
          · cases closing : closeSink disk (log ++ [.opened destination]) with
            | error stopped =>
              rw [closing] at closed
              exact opened.trans closed
            | ok log =>
              rw [closing] at closed
              exact opened.trans closed
          · exact opened

theorem turn_grows (state : Extraction) :
    state.log <+: turnLog (turn disk directory none state) := by
  cases current : state.current with
  | none =>
    rw [turn_between disk directory none state current, readHeader]
    split
    · exact prefix_rfl
    · dsimp only
      split
      · exact prefix_rfl
      · exact beginEntry_grows disk directory
          { state with pending := state.pending.drop block } (state.pending.take block)
  | some payload =>
    by_cases left : 0 < payload.remaining
    · by_cases empty : state.pending = []
      · rw [turn_starved disk directory none state current left empty]
        exact prefix_rfl
      · have grown := receive_grows disk state payload
          (state.pending.take payload.remaining.toNat)
        cases took : receive disk none state payload
            (state.pending.take payload.remaining.toNat) with
        | error stopped =>
          rw [turn_refused disk directory state current left empty took]
          rw [took] at grown
          exact grown
        | ok next =>
          obtain ⟨kind, _, turned⟩ := turn_received disk directory state current left empty took
          rw [took] at grown
          rw [turned]
          split
          · exact grown
          · exact grown.trans (finish_grows disk next _)
    · rw [turn_finishing disk directory none state current left]
      exact finish_grows disk state payload

/-! ### The looks at the disk -/

/-- A state without what the looks keep count of. -/
def unlooked (state : Extraction) : Extraction :=
  { state with checkedAt := 0 }

/-- Stopped by a look at the disk. -/
def ByLook (stopped : List Effect × Trouble) : Prop :=
  look disk stopped.1 = some stopped.2

/-- What a machine that looks at the disk does is what one that does not look does, or a look
stops it. -/
def Looked {Value : Type} (plain : Fallible Value → Fallible Value) (log : Value → List Effect)
    (result expected : Fallible Value) : Prop :=
  expected = plain result ∨
    ∃ stopped, result = .error stopped ∧ ByLook disk stopped ∧ stopped.1 = logOf log expected

theorem put_looked (checkEvery : Option Nat) (state : Extraction) (chunk : Bytes) :
    Looked disk (Machine.plainly unlooked) Extraction.log (put disk checkEvery state chunk)
      (put disk none (unlooked state) chunk) := by
  have log : (unlooked state).log = state.log := rfl
  rw [put_unlooked, log]
  unfold put
  cases writeBytes disk state.log chunk with
  | error stopped => exact Or.inl rfl
  | ok log =>
    dsimp only
    split
    · split
      · next trouble stops => exact Or.inr ⟨_, rfl, stops, rfl⟩
      · exact Or.inl rfl
    · exact Or.inl rfl

theorem receive_looked (checkEvery : Option Nat) (state : Extraction) (payload : Payload)
    (piece : Bytes) :
    Looked disk (Machine.plainly unlooked) Extraction.log
      (receive disk checkEvery state payload piece)
      (receive disk none (unlooked state) payload piece) := by
  unfold receive
  dsimp only
  split
  · obtain same | ⟨stopped, stops, look, log⟩ := put_looked disk checkEvery state piece
    · rw [same]
      cases put disk checkEvery state piece <;> exact Or.inl rfl
    · rw [stops]
      refine Or.inr ⟨stopped, rfl, look, ?_⟩
      rw [log]
      cases put disk none (unlooked state) piece <;> rfl
  · exact Or.inl rfl

theorem finish_looked (state : Extraction) (payload : Payload) :
    finish disk (unlooked state) payload =
      Machine.plainTurn unlooked (finish disk state payload) := by
  unfold finish
  show (if state.pending.length < payload.padding then _ else _) = _
  split
  · rfl
  · dsimp only
    cases payload.kind with
    | file =>
      have log : (unlooked state).log = state.log := rfl
      rw [log]
      dsimp only
      cases closeSink disk state.log <;> rfl
    | metadata type chunks =>
      dsimp only
      cases nameFromMetadata type chunks <;> rfl

theorem beginEntry_looked (state : Extraction) (header : Bytes) :
    beginEntry disk directory (unlooked state) header =
      Machine.plainTurn unlooked (beginEntry disk directory state header) := by
  have log : (unlooked state).log = state.log := rfl
  have longName : (unlooked state).longName = state.longName := rfl
  unfold beginEntry
  dsimp only
  rw [log, longName]
  split
  · split <;> rfl
  · cases safeJoin directory (entryName header state.longName) with
    | error trouble => rfl
    | ok destination =>
      dsimp only
      split
      · cases makeDirectory disk state.log destination <;> rfl
      · cases makeDirectory disk state.log destination.parent with
        | error stopped => rfl
        | ok log =>
          dsimp only
          split
          · cases closeSink disk (log ++ [.opened destination]) <;> rfl
          · rfl

theorem turn_looked (checkEvery : Option Nat) (state : Extraction) :
    turn disk directory none (unlooked state) =
        Machine.plainTurn unlooked (turn disk directory checkEvery state) ∨
      ∃ stopped, turn disk directory checkEvery state = .error stopped ∧ ByLook disk stopped ∧
        stopped.1 <+: turnLog (turn disk directory none (unlooked state)) := by
  cases current : state.current with
  | none =>
    rw [turn_between disk directory checkEvery state current,
      turn_between disk directory none (unlooked state) current]
    unfold readHeader
    show (if state.pending.length < block then _ else _) = _ ∨ _
    refine Or.inl ?_
    split
    · rfl
    · dsimp only
      show (if (state.pending.take block).head? = some 0 then _ else _) = _
      split
      · rfl
      · exact beginEntry_looked disk directory
          { state with pending := state.pending.drop block } (state.pending.take block)
  | some payload =>
    by_cases left : 0 < payload.remaining
    · by_cases empty : state.pending = []
      · rw [turn_starved disk directory checkEvery state current left empty,
          turn_starved disk directory none (unlooked state) current left empty]
        exact Or.inl rfl
      · obtain same | ⟨stopped, stops, look, log⟩ := receive_looked disk checkEvery state payload
          (state.pending.take payload.remaining.toNat)
        · cases took : receive disk checkEvery state payload
              (state.pending.take payload.remaining.toNat) with
          | error stopped =>
            rw [took] at same
            rw [turn_refused disk directory state current left empty took,
              turn_refused disk directory (unlooked state) current left empty same]
            exact Or.inl rfl
          | ok next =>
            rw [took] at same
            obtain ⟨kind, after, turned⟩ := turn_received disk directory state current left empty took
            obtain ⟨kind', after', turned'⟩ := turn_received disk directory (unlooked state) current left empty same
            have equal := Option.some.inj (after'.symm.trans after)
            rw [equal] at turned'
            rw [turned, turned']
            show (if _ then _ else _) = _ ∨ _
            refine Or.inl ?_
            split
            · rfl
            · exact finish_looked disk next _
        · refine Or.inr ⟨stopped, turn_refused disk directory state current left empty stops, look, ?_⟩
          rw [log]
          cases took : receive disk none (unlooked state) payload
              (state.pending.take payload.remaining.toNat) with
          | error stopped =>
            rw [turn_refused disk directory (unlooked state) current left empty took]
            exact prefix_rfl
          | ok next =>
            obtain ⟨kind, _, turned⟩ := turn_received disk directory (unlooked state) current left empty took
            rw [turned]
            split
            · exact prefix_rfl
            · exact finish_grows disk next _
    · rw [turn_finishing disk directory checkEvery state current left,
        turn_finishing disk directory none (unlooked state) current left]
      exact Or.inl (finish_looked disk state payload)

/-- The machine that looks at the disk follows the one that does not. -/
theorem machine_follows (checkEvery : Option Nat) :
    Machine.Follows (machine disk directory checkEvery) (machine disk directory none) unlooked
      (ByLook disk) Extraction.log Prod.fst where
  ends := machine_ends disk directory checkEvery
  simpleEnds := machine_ends disk directory none
  push _ _ := rfl
  done _ := rfl
  turns := turn_looked disk directory checkEvery
  grows := turn_grows disk directory
  keeps _ _ := rfl

section

variable (space : List Effect → Except String Space)

theorem writeBytes_space (log : List Effect) (bytes : Bytes) :
    writeBytes { disk with space := space } log bytes = writeBytes disk log bytes := by
  induction bytes generalizing log with
  | nil => rfl
  | cons byte bytes inductionHypothesis =>
    unfold writeBytes
    dsimp only
    split
    · rfl
    · exact inductionHypothesis _

theorem receive_space (state : Extraction) (payload : Payload) (piece : Bytes) :
    receive { disk with space := space } none state payload piece =
      receive disk none state payload piece := by
  unfold receive
  rw [put_unlooked, put_unlooked, writeBytes_space]

theorem turn_space : turn { disk with space := space } directory none =
    turn disk directory none := by
  funext state
  unfold turn
  simp only [receive_space]
  rfl

theorem machine_space : machine { disk with space := space } directory none =
    machine disk directory none := by
  unfold machine
  rw [turn_space]

/-- Where no look is due, it makes no difference what one would tell. -/
theorem unpack_space (source : List Bytes) (broken : Option String) :
    unpack { disk with space := space } directory none source broken =
      unpack disk directory none source broken := by
  unfold unpack
  rw [machine_space]

end

/-! ### The block that ends an archive -/

/-- How many bytes after its header an entry takes. -/
def bodyLength (header : Bytes) : Nat :=
  if ¬isMetadata (typeIn header) ∧ (typeIn header = '5' ∨ sizeIn header = 0) then 0
  else (sizeIn header).toNat + paddingAfter (sizeIn header)

/-- An archive that has its end: read entry by entry, it comes to a whole block that begins
with a zero byte. -/
inductive HasEnd : Bytes → Prop where
  | marker {bytes : Bytes} (whole : block ≤ bytes.length) (zero : bytes.head? = some 0) :
      HasEnd bytes
  | entry {bytes : Bytes} (whole : block ≤ bytes.length) (solid : bytes.head? ≠ some 0)
      (rest : HasEnd (bytes.drop (block + bodyLength (bytes.take block)))) : HasEnd bytes

/-- A state from which the end is reached. -/
def EndsAhead (state : Extraction) : Prop :=
  match state.current with
  | none => HasEnd state.pending
  | some payload => HasEnd (state.pending.drop (payload.remaining.toNat + payload.padding))

theorem beginEntry_body (state : Extraction) {next : Extraction} {header : Bytes}
    (between : state.current = none)
    (began : beginEntry disk directory state header = .ok (.again next))
    (ahead : EndsAhead next) : HasEnd (state.pending.drop (bodyLength header)) := by
  unfold EndsAhead at ahead
  unfold bodyLength
  unfold beginEntry at began
  dsimp only at began
  split at began
  · next metadata =>
    rw [if_neg (fun both => both.1 metadata)]
    split at began
    · exact nomatch began
    · cases began
      exact ahead
  · next plain =>
    split at began
    · exact nomatch began
    · split at began
      · next directory' =>
        rw [if_pos ⟨plain, Or.inl directory'⟩]
        split at began
        · exact nomatch began
        · cases began
          dsimp only at ahead
          rw [between] at ahead
          exact ahead
      · next file =>
        split at began
        · exact nomatch began
        · split at began
          · next empty =>
            rw [if_pos ⟨plain, Or.inr empty⟩]
            split at began
            · exact nomatch began
            · cases began
              dsimp only at ahead
              rw [between] at ahead
              exact ahead
          · next full =>
            rw [if_neg (fun both => not_or.mpr ⟨file, full⟩ both.2)]
            cases began
            exact ahead

/-- A machine that comes to the end of the archive met the block that ends it. -/
theorem endsAhead_of_settle (state next : Extraction) (open' : state.ended = false)
    (settled : (machine disk directory none).settle state = .ok next)
    (ended : next.ended = true) : EndsAhead state := by
  refine (machine disk directory none).settle_induction (machine_ends disk directory none)
    (fun state result => state.ended = false → ∀ next, result = .ok next → next.ended = true →
      EndsAhead state) ?_ ?_ ?_ state open' next settled ended
  · exact fun _ _ _ _ _ impossible => nomatch impossible
  · intro state next turned open' final equal ended
    obtain rfl : next = final := Except.ok.inj equal
    obtain same | ⟨between, whole, zero⟩ := turn_wait disk directory turned
    · rw [same, open'] at ended
      exact nomatch ended
    · unfold EndsAhead
      rw [between]
      exact .marker whole zero
  · intro state next result turned inductionHypothesis open' final equal ended
    have ahead := inductionHypothesis ((turn_again_ended disk directory turned).trans open')
      final equal ended
    obtain ⟨between, whole, solid, began⟩ | ⟨payload, current, between, rest, _⟩ :=
      turn_again disk directory turned
    · have body : HasEnd ((state.pending.drop block).drop
          (bodyLength (state.pending.take block))) :=
        beginEntry_body disk directory { state with pending := state.pending.drop block } between
          began ahead
      unfold EndsAhead
      rw [between]
      rw [head?_take, if_neg (by decide)] at solid
      refine .entry whole solid ?_
      rw [← drop_drop]
      exact body
    · unfold EndsAhead at ahead ⊢
      rw [between, rest] at ahead
      rw [current]
      exact ahead

/-! ### However the bytes are cut -/

/-- What a look at the disk stops the unpacking for. -/
def Trouble.OfLook : Trouble → Prop
  | .lookFailed _ => True
  | .aboutToFill _ => True
  | _ => False

/-- Unpacking that was stopped by a look at the disk. -/
def Outcome.StoppedByLook (outcome : Outcome) : Prop :=
  ∃ trouble, outcome.result = .error trouble ∧ trouble.OfLook

theorem ofLook_of_look {log : List Effect} {trouble : Trouble}
    (stops : look disk log = some trouble) : trouble.OfLook := by
  unfold look at stops
  split at stops
  · cases stops
    trivial
  · split at stops
    · cases stops
      trivial
    · cases stops

/-- An unpacking that ends with what the look after its last call stopped it for was stopped by
a look. -/
theorem stoppedByLook_of_look {outcome : Outcome} {trouble : Trouble}
    (stops : look disk outcome.log = some trouble) (ends : outcome.result = .error trouble) :
    outcome.StoppedByLook :=
  ⟨trouble, ends, ofLook_of_look disk stops⟩

theorem start_resting : (machine disk directory none).Resting .start :=
  Or.inr rfl

/-- Without looks, unpacking does with chunks what it does with all bytes at once. -/
theorem unpack_unlooked (source : List Bytes) (broken : Option String) :
    unpack disk directory none source broken =
      unpack disk directory none [source.flatten] broken := by
  have resting := start_resting disk directory
  unfold unpack
  rw [Machine.consume_eq_feed (machine_lawful disk directory) source resting,
    Machine.consume_eq_feed (machine_lawful disk directory) [source.flatten] resting,
    flatten_singleton]

theorem conclude_unlooked (broken : Option String) (result : Fallible Extraction) :
    conclude broken (Machine.plainly unlooked result) = conclude broken result := by
  cases result <;> rfl

theorem conclude_log (broken : Option String) (result : Fallible Extraction) :
    (conclude broken result).log = logOf Extraction.log result := by
  unfold conclude
  split
  · rfl
  · split
    · rfl
    · split
      · rfl
      · split <;> rfl

/-- With looks, unpacking does what it does without them, or is stopped by one with a
beginning of that. -/
theorem extractInto_looked (checkEvery : Option Nat) (source : List Bytes)
    (broken : Option String) :
    extractInto disk directory checkEvery source broken =
        unpack disk directory none source broken ∨
      (∃ trouble,
        look disk (extractInto disk directory checkEvery source broken).log = some trouble ∧
          (extractInto disk directory checkEvery source broken).result = .error trouble) ∧
        (extractInto disk directory checkEvery source broken).log <+:
          (unpack disk directory none source broken).log := by
  cases first : disk.space [] with
  | error code =>
    have unseen : extractInto disk directory checkEvery source broken =
        ⟨[], .error (.lookFailed code)⟩ := by
      unfold extractInto
      rw [first]
    have stops : look disk [] = some (.lookFailed code) := by
      unfold look
      rw [first]
    rw [unseen]
    exact Or.inr ⟨⟨_, stops, rfl⟩, nil_prefix⟩
  | ok space =>
    have seen : extractInto disk directory checkEvery source broken =
        unpack disk directory checkEvery source broken := by
      unfold extractInto
      rw [first]
    rw [seen]
    obtain same | ⟨⟨log, trouble⟩, stops, look, begun⟩ :=
      Machine.consume_follows (machine_follows disk directory checkEvery) .start source
    · refine Or.inl ?_
      have whole : (machine disk directory none).consume .start source = _ := same
      unfold unpack
      rw [whole, conclude_unlooked]
    · refine Or.inr ⟨⟨trouble, ?_, ?_⟩, ?_⟩
      · unfold unpack
        rw [stops]
        exact look
      · unfold unpack
        rw [stops]
        rfl
      · unfold unpack
        rw [conclude_log, conclude_log, stops]
        exact begun

/-- An archive that is unpacked to its end has the block that ends it. -/
theorem hasEnd_of_unpacked (checkEvery : Option Nat) (source : List Bytes)
    (broken : Option String) {files : Nat}
    (unpacked : (extractInto disk directory checkEvery source broken).result = .ok files) :
    HasEnd source.flatten := by
  have whole : (unpack disk directory none [source.flatten] broken).result = .ok files := by
    obtain same | ⟨⟨trouble, _, stopped⟩, _⟩ :=
      extractInto_looked disk directory checkEvery source broken
    · rw [← unpack_unlooked, ← same]
      exact unpacked
    · rw [stopped] at unpacked
      exact nomatch unpacked
  unfold unpack at whole
  rw [Machine.consume_eq_feed (machine_lawful disk directory) _ (start_resting disk directory),
    flatten_singleton] at whole
  cases fed : (machine disk directory none).feed .start source.flatten with
  | error stopped =>
    rw [fed] at whole
    exact nomatch whole
  | ok state =>
    rw [fed] at whole
    have ended : state.ended = true := by
      unfold conclude at whole
      dsimp only at whole
      split at whole
      · exact nomatch whole
      · split at whole
        · exact nomatch whole
        · split at whole
          · exact nomatch whole
          · next ended => exact Bool.not_eq_false _ ▸ (by simpa using ended)
    exact endsAhead_of_settle disk directory (Extraction.start.push source.flatten) state rfl fed
      ended

end

namespace Sample

/-- A disk with room for two bytes above its floor. -/
def disk : Disk where
  mkdir _ _ := none
  write _ _ := none
  close _ := none
  space log :=
    .ok ⟨512 * mib + 2 - (log.filter fun effect => effect matches .wrote _).length, 100 * gib⟩
  floorBytes := none

/-- A directory that is unpacked into. -/
def directory : Place := ⟨["data".toList, "world".toList], by decide⟩

/-- An archive of one file of three bytes. -/
def archive : Bytes :=
  (tarChunks [⟨"a".toList, .file (.opened 3 0o644 0 [1, 2, 3] 3)⟩]).1.flatten

/-- The archive, cut behind the file's second byte. -/
def archiveInTwo : List Bytes := [archive.take 514, archive.drop 514]

end Sample

end Geeboard.Tar
