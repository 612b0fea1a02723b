/-
This file says once what a turn of the unpacking can be: an entry begun, a payload
taken in or done with, or a wait for the next chunk. Each turn it goes on after uses
up a header or an entry, so that it comes to rest; and what more input behind a
state changes is said piece by piece.
-/

import Geeboard.Agent.Tar

namespace Geeboard.Tar

open Text Feeding List

/-! ### The machine that never looks at the disk -/

@[simp]
theorem push_pending (state : Extraction) (more : Bytes) :
    (state.push more).pending = state.pending ++ more := rfl

@[simp]
theorem push_current (state : Extraction) (more : Bytes) :
    (state.push more).current = state.current := rfl

@[simp]
theorem push_log (state : Extraction) (more : Bytes) : (state.push more).log = state.log := rfl

@[simp]
theorem push_longName (state : Extraction) (more : Bytes) :
    (state.push more).longName = state.longName := rfl

theorem push_nil (state : Extraction) : state.push [] = state := by
  unfold Extraction.push
  rw [append_nil]

theorem push_push (state : Extraction) (first second : Bytes) :
    (state.push first).push second = state.push (first ++ second) := by
  unfold Extraction.push
  dsimp only
  rw [append_assoc]

/-- A turn's result with more input behind it. -/
abbrev behind (more : Bytes) : Fallible (Turn Extraction) → Fallible (Turn Extraction) :=
  Machine.plainTurn fun state => state.push more

section
variable (disk : Disk) (directory : Place)

theorem beginEntry_push (state : Extraction) (header more : Bytes) :
    beginEntry disk directory (state.push more) header =
      behind more (beginEntry disk directory state header) := by
  unfold beginEntry
  dsimp only [push_log, push_longName]
  split
  · split <;> rfl
  · cases safeJoin directory (entryName header state.longName) with
    | error trouble => rfl
    | ok destination =>
      dsimp only
      split
      · cases makeDirectory disk state.log destination <;> rfl
      · cases makeDirectory disk state.log destination.parent with
        | error stopped => rfl
        | ok log =>
          dsimp only
          split
          · cases closeSink disk (log ++ [.opened destination]) <;> rfl
          · rfl

theorem finish_push (state : Extraction) (payload : Payload) (more : Bytes)
    (there : payload.padding ≤ state.pending.length) :
    finish disk (state.push more) payload = behind more (finish disk state payload) := by
  unfold finish
  rw [push_pending, length_append, if_neg (by omega), if_neg (by omega),
    drop_append_of_le_length there]
  dsimp only [push_log]
  cases payload.kind with
  | file =>
    dsimp only
    cases closeSink disk state.log <;> rfl
  | metadata type chunks =>
    dsimp only
    cases nameFromMetadata type chunks <;> rfl

theorem finish_waits (state : Extraction) (payload : Payload)
    (short : state.pending.length < payload.padding) :
    finish disk state payload = .ok (.wait state) := by
  unfold finish
  rw [if_pos short]

theorem writeBytes_append (log : List Effect) (first second : Bytes) :
    writeBytes disk log (first ++ second) =
      match writeBytes disk log first with
      | .error stopped => .error stopped
      | .ok log => writeBytes disk log second := by
  induction first generalizing log with
  | nil => rfl
  | cons byte first inductionHypothesis =>
    rw [cons_append, writeBytes, writeBytes]
    cases disk.write log byte with
    | some code => rfl
    | none => exact inductionHypothesis _

/-- Where no look is due, what is put counts and is written, and no more. -/
theorem put_unlooked (state : Extraction) (chunk : Bytes) :
    put disk none state chunk =
      match writeBytes disk state.log chunk with
      | .error stopped => .error stopped
      | .ok log => .ok { state with log := log, written := state.written + chunk.length } := rfl

/-- Where no look is due, two pieces taken in are the one they make. -/
theorem receive_append (state : Extraction) (payload : Payload) (first second : Bytes) :
    receive disk none state payload (first ++ second) =
      match receive disk none state payload first with
      | .error stopped => .error stopped
      | .ok next =>
        match next.current with
        | none => .ok next
        | some left => receive disk none next left second := by
  obtain ⟨kind, remaining, padding⟩ := payload
  have count : remaining - ((first ++ second).length : Int) =
      remaining - first.length - second.length := by
    rw [length_append]
    omega
  have dropped : state.pending.drop (first ++ second).length =
      (state.pending.drop first.length).drop second.length := by
    rw [drop_drop, length_append]
  unfold receive
  dsimp only
  rw [count, dropped]
  cases kind with
  | file =>
    dsimp only
    rw [put_unlooked, put_unlooked, writeBytes_append]
    cases writeBytes disk state.log first with
    | error stopped => rfl
    | ok log =>
      dsimp only
      rw [put_unlooked]
      dsimp only
      cases writeBytes disk log second with
      | error stopped => rfl
      | ok log =>
        dsimp only
        rw [length_append, Nat.add_assoc]
  | metadata type chunks =>
    dsimp only
    rw [append_assoc]

variable {checkEvery : Option Nat} {state next : Extraction} {payload : Payload}

/-- What putting a chunk changes: the log and the counts. -/
theorem put_spec {chunk : Bytes} (taken : put disk checkEvery state chunk = .ok next) :
    ∃ log written checkedAt, writeBytes disk state.log chunk = .ok log ∧
      next = { state with log := log, written := written, checkedAt := checkedAt } := by
  unfold put at taken
  cases written : writeBytes disk state.log chunk with
  | error stopped =>
    rw [written] at taken
    exact nomatch taken
  | ok log =>
    rw [written] at taken
    dsimp only at taken
    split at taken
    · split at taken
      · exact nomatch taken
      · cases taken
        exact ⟨log, _, _, rfl, rfl⟩
    · cases taken
      exact ⟨log, _, _, rfl, rfl⟩

/-- What is left to read of a payload once a piece was taken in, and what is not used yet. -/
theorem receive_spec {piece : Bytes}
    (received : receive disk checkEvery state payload piece = .ok next) :
    next.pending = state.pending.drop piece.length ∧ next.ended = state.ended ∧
      ∃ kind, next.current =
        some { payload with kind := kind, remaining := payload.remaining - piece.length } := by
  obtain ⟨kind, remaining, padding⟩ := payload
  unfold receive at received
  cases kind with
  | file =>
    dsimp only at received
    cases taken : put disk checkEvery state piece with
    | error stopped =>
      rw [taken] at received
      exact nomatch received
    | ok after =>
      rw [taken] at received
      obtain ⟨log, written, checkedAt, _, rfl⟩ := put_spec disk taken
      cases received
      exact ⟨rfl, rfl, .file, rfl⟩
  | metadata type chunks =>
    cases received
    exact ⟨rfl, rfl, .metadata type (chunks ++ piece), rfl⟩

theorem put_push (state : Extraction) (checkEvery : Option Nat) (chunk more : Bytes) :
    put disk checkEvery (state.push more) chunk =
      Machine.plainly (fun next => next.push more) (put disk checkEvery state chunk) := by
  unfold put
  dsimp only [push_log]
  cases writeBytes disk state.log chunk with
  | error stopped => rfl
  | ok log =>
    show (if lookDue checkEvery (state.written + chunk.length) state.checkedAt then _ else _) = _
    dsimp only
    split
    · split <;> rfl
    · rfl

/-- More input behind changes nothing about a piece that is there. -/
theorem receive_push (state : Extraction) (checkEvery : Option Nat) (payload : Payload)
    (piece more : Bytes) (there : piece.length ≤ state.pending.length) :
    receive disk checkEvery (state.push more) payload piece =
      Machine.plainly (fun next => next.push more)
        (receive disk checkEvery state payload piece) := by
  obtain ⟨kind, remaining, padding⟩ := payload
  unfold receive
  rw [push_pending, drop_append_of_le_length there]
  cases kind with
  | file =>
    dsimp only
    rw [put_push]
    cases put disk checkEvery state piece <;> rfl
  | metadata type chunks => rfl

/-! ### One turn -/

theorem beginEntry_spec {header : Bytes} {turned : Turn Extraction}
    (began : beginEntry disk directory state header = .ok turned) :
    ∃ next, turned = .again next ∧ next.pending = state.pending ∧ next.ended = state.ended := by
  unfold beginEntry at began
  dsimp only at began
  split at began
  · split at began
    · exact nomatch began
    · cases began
      exact ⟨_, rfl, rfl, rfl⟩
  · cases named : safeJoin directory (entryName header state.longName) with
    | error trouble =>
      rw [named] at began
      exact nomatch began
    | ok destination =>
      rw [named] at began
      dsimp only at began
      split at began
      · split at began
        · exact nomatch began
        · cases began
          exact ⟨_, rfl, rfl, rfl⟩
      · split at began
        · exact nomatch began
        · split at began
          · split at began
            · exact nomatch began
            · cases began
              exact ⟨_, rfl, rfl, rfl⟩
          · cases began
            exact ⟨_, rfl, rfl, rfl⟩

theorem finish_spec {turned : Turn Extraction} (there : payload.padding ≤ state.pending.length)
    (finished : finish disk state payload = .ok turned) :
    ∃ next, turned = .again next ∧ next.pending = state.pending.drop payload.padding ∧
      next.current = none ∧ next.ended = state.ended := by
  unfold finish at finished
  rw [if_neg (by omega)] at finished
  dsimp only at finished
  split at finished
  · split at finished
    · exact nomatch finished
    · cases finished
      exact ⟨_, rfl, rfl, rfl, rfl⟩
  · split at finished
    · exact nomatch finished
    · cases finished
      exact ⟨_, rfl, rfl, rfl, rfl⟩

/-- The padding is there to be skipped, or the machine waits for it. -/
theorem finish_waits_or (state : Extraction) (payload : Payload) :
    finish disk state payload = .ok (.wait state) ∨ payload.padding ≤ state.pending.length := by
  by_cases short : state.pending.length < payload.padding
  · exact Or.inl (finish_waits disk state payload short)
  · exact Or.inr (by omega)

/-- A turn between two entries. -/
theorem turn_between (checkEvery : Option Nat) (state : Extraction)
    (between : state.current = none) :
    turn disk directory checkEvery state = readHeader disk directory state := by
  unfold turn
  rw [between]

/-- A turn on a payload that has been read. -/
theorem turn_finishing (checkEvery : Option Nat) (state : Extraction)
    (current : state.current = some payload) (read : ¬0 < payload.remaining) :
    turn disk directory checkEvery state = finish disk state payload := by
  unfold turn
  rw [current]
  exact if_neg read

/-- A turn on a payload with nothing to go on with. -/
theorem turn_starved (checkEvery : Option Nat) (state : Extraction)
    (current : state.current = some payload) (left : 0 < payload.remaining)
    (empty : state.pending = []) :
    turn disk directory checkEvery state = .ok (.wait state) := by
  unfold turn
  rw [current]
  dsimp only
  rw [if_pos left, if_pos empty]

/-- The payload after a piece was taken in. -/
def Payload.after (payload : Payload) (kind : PayloadKind) (piece : Bytes) : Payload :=
  { payload with kind := kind, remaining := payload.remaining - piece.length }

/-- A turn on a payload that cannot take its piece in. -/
theorem turn_refused (state : Extraction) {stopped : List Effect × Trouble}
    (current : state.current = some payload) (left : 0 < payload.remaining)
    (some' : state.pending ≠ []) (received : receive disk checkEvery state payload
      (state.pending.take payload.remaining.toNat) = .error stopped) :
    turn disk directory checkEvery state = .error stopped := by
  unfold turn
  rw [current]
  dsimp only
  rw [if_pos left, if_neg some', received]

/-- A turn on a payload that takes a piece in. -/
theorem turn_received (state : Extraction) (current : state.current = some payload)
    (left : 0 < payload.remaining) (some' : state.pending ≠ [])
    (received : receive disk checkEvery state payload
      (state.pending.take payload.remaining.toNat) = .ok next) :
    ∃ kind, next.current = some (payload.after kind
        (state.pending.take payload.remaining.toNat)) ∧
      turn disk directory checkEvery state =
        if 0 < (payload.after kind (state.pending.take payload.remaining.toNat)).remaining then
          .ok (.wait next)
        else finish disk next (payload.after kind
          (state.pending.take payload.remaining.toNat)) := by
  obtain ⟨_, _, kind, after⟩ := receive_spec disk received
  refine ⟨kind, after, ?_⟩
  unfold turn
  rw [current]
  dsimp only
  rw [if_pos left, if_neg some', received]
  dsimp only
  rw [after]
  rfl

/-- What a turn the machine goes on after can be: an entry begun, or a payload done with. -/
theorem turn_again (turned : turn disk directory checkEvery state = .ok (.again next)) :
    (state.current = none ∧ block ≤ state.pending.length ∧
      (state.pending.take block).head? ≠ some 0 ∧
      beginEntry disk directory { state with pending := state.pending.drop block }
        (state.pending.take block) = .ok (.again next)) ∨
    ∃ payload, state.current = some payload ∧ next.current = none ∧
      next.pending = state.pending.drop (payload.remaining.toNat + payload.padding) ∧
      next.ended = state.ended := by
  by_cases between : state.current = none
  · rw [turn_between disk directory checkEvery state between, readHeader] at turned
    split at turned
    · exact nomatch turned
    · next long =>
      dsimp only at turned
      split at turned
      · exact nomatch turned
      · next solid => exact Or.inl ⟨between, by omega, solid, turned⟩
  · obtain ⟨payload, current⟩ := Option.ne_none_iff_exists'.mp between
    refine Or.inr ⟨payload, current, ?_⟩
    by_cases left : 0 < payload.remaining
    · by_cases empty : state.pending = []
      · rw [turn_starved disk directory checkEvery state current left empty] at turned
        exact nomatch turned
      · cases took : receive disk checkEvery state payload
            (state.pending.take payload.remaining.toNat) with
        | error stopped =>
          rw [turn_refused disk directory state current left empty took] at turned
          exact nomatch turned
        | ok after =>
          obtain ⟨kind, _, whole⟩ := turn_received disk directory state current left empty took
          rw [whole] at turned
          split at turned
          · exact nomatch turned
          · next read =>
            obtain ⟨pending, ended, _⟩ := receive_spec disk took
            have size : (state.pending.take payload.remaining.toNat).length =
                payload.remaining.toNat := by
              have none' : ¬0 < payload.remaining -
                  ((state.pending.take payload.remaining.toNat).length : Int) := read
              rw [length_take] at none' ⊢
              omega
            obtain waits | there := finish_waits_or disk after
              (payload.after kind (state.pending.take payload.remaining.toNat))
            · rw [waits] at turned
              exact nomatch turned
            · obtain ⟨later, again, rest, between, ended'⟩ := finish_spec disk there turned
              cases again
              refine ⟨between, ?_, ended'.trans ended⟩
              rw [rest, pending, size, drop_drop]
              rfl
    · rw [turn_finishing disk directory checkEvery state current left] at turned
      obtain waits | there := finish_waits_or disk state payload
      · rw [waits] at turned
        exact nomatch turned
      · obtain ⟨later, again, rest, between, ended⟩ := finish_spec disk there turned
        cases again
        refine ⟨between, ?_, ended⟩
        rw [rest, Int.toNat_of_nonpos (by omega), Nat.zero_add]

/-- Where a machine waits the archive has not ended, or the block that ends it was next. -/
theorem turn_wait (turned : turn disk directory checkEvery state = .ok (.wait next)) :
    next.ended = state.ended ∨
      state.current = none ∧ block ≤ state.pending.length ∧ state.pending.head? = some 0 := by
  cases current : state.current with
  | none =>
    rw [turn_between disk directory checkEvery state current, readHeader] at turned
    split at turned
    · cases turned
      exact Or.inl rfl
    · next long =>
      dsimp only at turned
      split at turned
      · next zero =>
        refine Or.inr ⟨rfl, by omega, ?_⟩
        rw [head?_take, if_neg (by decide)] at zero
        exact zero
      · obtain ⟨later, again, _⟩ := beginEntry_spec disk directory turned
        exact nomatch again
  | some payload =>
    refine Or.inl ?_
    by_cases left : 0 < payload.remaining
    · by_cases empty : state.pending = []
      · rw [turn_starved disk directory checkEvery state current left empty] at turned
        cases turned
        rfl
      · cases took : receive disk checkEvery state payload
            (state.pending.take payload.remaining.toNat) with
        | error stopped =>
          rw [turn_refused disk directory state current left empty took] at turned
          exact nomatch turned
        | ok after =>
          obtain ⟨kind, _, whole⟩ := turn_received disk directory state current left empty took
          have ended := (receive_spec disk took).2.1
          rw [whole] at turned
          split at turned
          · cases turned
            exact ended
          · obtain waits | there := finish_waits_or disk after
              (payload.after kind (state.pending.take payload.remaining.toNat))
            · rw [waits] at turned
              cases turned
              exact ended
            · obtain ⟨later, again, _⟩ := finish_spec disk there turned
              exact nomatch again
    · rw [turn_finishing disk directory checkEvery state current left] at turned
      obtain waits | there := finish_waits_or disk state payload
      · rw [waits] at turned
        cases turned
        rfl
      · obtain ⟨later, again, _⟩ := finish_spec disk there turned
        exact nomatch again

/-- Each turn the machine goes on after uses up a header or an entry. -/
theorem machine_ends (checkEvery : Option Nat) : (machine disk directory checkEvery).Ends := by
  refine ⟨fun state => ?_, fun state next turned => ?_⟩
  · show 0 < enoughTurns state
    unfold enoughTurns
    split <;> omega
  · show enoughTurns next < enoughTurns state
    obtain ⟨between, long, _, began⟩ | ⟨payload, current, between, rest, _⟩ :=
      turn_again disk directory turned
    · obtain ⟨_, again, rest, _⟩ := beginEntry_spec disk directory began
      cases again
      have size : next.pending.length = state.pending.length - block := by
        rw [rest, length_drop]
      have positive : 0 < block := by decide
      unfold enoughTurns
      split <;> split <;> omega
    · have size : next.pending.length ≤ state.pending.length := by
        rw [rest, length_drop]
        omega
      unfold enoughTurns
      rw [between, current, Option.isSome_none, Option.isSome_some, if_neg (by decide),
        if_pos rfl]
      omega

theorem turn_again_ended (turned : turn disk directory checkEvery state = .ok (.again next)) :
    next.ended = state.ended := by
  obtain ⟨_, _, _, began⟩ | ⟨_, _, _, _, ended⟩ := turn_again disk directory turned
  · obtain ⟨_, again, _, ended⟩ := beginEntry_spec disk directory began
    cases again
    exact ended
  · exact ended

end

end Geeboard.Tar
