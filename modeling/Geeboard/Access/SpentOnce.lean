/-
This file is about what the second factor is spent on.

A recovery code is spent by a statement that takes only one not used yet, so it is
spent once in any run. A time step is spent by a statement that looks at the last
step alone and not at the secret, and beginning again or turning off forgets the
last step; and turning off accepts a step without looking. While every code that is
accepted is still one of the account's secret and later than its last step, the
steps of one secret only grow.
-/

import Geeboard.Access.TwoFactor

namespace Geeboard.Access

open List Option

/-! ### What is to hold, and when it does -/

/-- A later acceptance of the same secret is for a later step. -/
def Grows (later earlier : Nat × Int) : Prop := later.1 = earlier.1 → earlier.2 < later.2

/-- The steps accepted of one secret grow, and no recovery code is spent twice. -/
structure SpentOnce (state : State) : Prop where
  steps : state.accepted.Pairwise Grows
  codes : state.spent.Nodup

/-- When a code of a secret is accepted, the account still has that secret, and no last step from
this one on. -/
def InForce (state : State) : Event → Prop
  | .write job =>
    match state.jobs job with
    | .claiming operation secret step =>
      operation = .disable ∨ isLater state.row.totpLastStep step = true →
        state.row.totpSecret = some secret ∧ isLater state.row.totpLastStep step = true
    | _ => True
  | _ => True

/-! ### The steps of a secret -/

/-- What is accepted was accepted in order, for secrets there are, and the account's last step is
that of its secret. -/
structure Recorded (state : State) : Prop where
  steps : state.accepted.Pairwise Grows
  known : ∀ secret, state.row.totpSecret = some secret → secret < state.freshSecret
  old : ∀ taken ∈ state.accepted, taken.1 < state.freshSecret
  last : ∀ taken ∈ state.accepted, state.row.totpSecret = some taken.1 →
    ∃ last, state.row.totpLastStep = some last ∧ taken.2 ≤ last

section

variable {state next : State}

theorem Recorded.same (recorded : Recorded state) (secret : next.row.totpSecret = state.row.totpSecret)
    (lastStep : next.row.totpLastStep = state.row.totpLastStep)
    (accepted : next.accepted = state.accepted) (fresh : next.freshSecret = state.freshSecret) :
    Recorded next := by
  refine ⟨?_, ?_, ?_, ?_⟩
  · rw [accepted]
    exact recorded.steps
  · rw [secret, fresh]
    exact recorded.known
  · rw [accepted, fresh]
    exact recorded.old
  · rw [accepted, secret, lastStep]
    exact recorded.last

/-- A step later than the last of its secret is later than all that were accepted of it. -/
theorem Recorded.grows (recorded : Recorded state) {secret : Nat} {step : Int}
    (own : state.row.totpSecret = some secret)
    (later : isLater state.row.totpLastStep step = true) :
    ((secret, step) :: state.accepted).Pairwise Grows := by
  refine pairwise_cons.mpr ⟨fun taken member same => ?_, recorded.steps⟩
  obtain ⟨last, is, below⟩ := recorded.last taken member (by rw [own]; exact congrArg some same)
  rw [is] at later
  exact Int.lt_of_le_of_lt below (lt_of_isLater later)

theorem recorded_step {event : Event} (recorded : Recorded state) (inForce : InForce state event)
    (change : Change state event next) : Recorded next := by
  cases change with
  | moves | becomes | drops | creates | clears | spends => exact recorded.same rfl rfl rfl rfl
  | begins job under =>
    refine ⟨recorded.steps, fun secret same => ?_, fun taken member => ?_, fun taken member same => ?_⟩
    · cases same
      exact Nat.lt_succ_self _
    · exact (recorded.old taken member).trans (Nat.lt_succ_self _)
    · exact absurd (recorded.old taken member) (some.inj same ▸ Nat.lt_irrefl _)
  | disables job secret step under =>
    unfold InForce at inForce
    simp only [under] at inForce
    obtain ⟨own, later⟩ := inForce (.inl trivial)
    refine ⟨recorded.grows own later, ?_, fun taken member => ?_, ?_⟩
    · rintro secret ⟨⟩
    · rcases mem_cons.mp member with rfl | earlier
      · exact recorded.known _ own
      · exact recorded.old taken earlier
    · rintro taken member ⟨⟩
  | claims job operation secret step under other later =>
    unfold InForce at inForce
    simp only [under] at inForce
    obtain ⟨own, -⟩ := inForce (.inr later)
    refine ⟨recorded.grows own later, recorded.known, fun taken member => ?_, fun taken member same => ?_⟩
    · rcases mem_cons.mp member with rfl | earlier
      · exact recorded.known _ own
      · exact recorded.old taken earlier
    · refine ⟨step, rfl, ?_⟩
      rcases mem_cons.mp member with rfl | earlier
      · exact Int.le_refl _
      · obtain ⟨last, is, below⟩ := recorded.last taken earlier same
        rw [is] at later
        exact Int.le_trans below (Int.le_of_lt (lt_of_isLater later))

/-! ### The recovery codes -/

/-- The codes marked as used are those spent, each once, and the codes to come are new. -/
structure Marked (state : State) : Prop where
  once : state.spent.Nodup
  used : ∀ code ∈ state.codes, code.used = true ↔ code.id ∈ state.spent
  old : ∀ code ∈ state.codes, code.id < state.freshCode
  past : ∀ id ∈ state.spent, id < state.freshCode

theorem Marked.same (marked : Marked state) (codes : next.codes = state.codes)
    (spent : next.spent = state.spent) (fresh : next.freshCode = state.freshCode) :
    Marked next := by
  refine ⟨?_, ?_, ?_, ?_⟩
  · rw [spent]
    exact marked.once
  · rw [codes, spent]
    exact marked.used
  · rw [codes, fresh]
    exact marked.old
  · rw [spent, fresh]
    exact marked.past

theorem Marked.deleted (marked : Marked state) (codes : next.codes = [])
    (spent : next.spent = state.spent) (fresh : next.freshCode = state.freshCode) :
    Marked next := by
  refine ⟨?_, ?_, ?_, ?_⟩
  · rw [spent]
    exact marked.once
  · rw [codes]
    rintro code ⟨⟩
  · rw [codes]
    rintro code ⟨⟩
  · rw [spent, fresh]
    exact marked.past

theorem spend_id (id : Nat) (code : RecoveryCode) : (spend id code).id = code.id := by
  unfold spend
  split <;> rfl

theorem spend_used (id : Nat) (code : RecoveryCode) :
    (spend id code).used = true ↔ code.id = id ∨ code.used = true := by
  unfold spend
  split
  · rename_i same
    exact iff_of_true rfl (.inl same)
  · rename_i other
    exact (or_iff_right other).symm

theorem marked_step {event : Event} (marked : Marked state) (change : Change state event next) :
    Marked next := by
  cases change with
  | moves | becomes | begins | disables | claims => exact marked.same rfl rfl rfl
  | drops | clears => exact marked.deleted rfl rfl rfl
  | creates job under =>
    have made : ∀ id ∈ List.range' state.freshCode CODES,
        state.freshCode ≤ id ∧ id < state.freshCode + CODES := fun id => mem_range'_1.mp
    refine ⟨marked.once, fun code member => ?_, fun code member => ?_, fun id spent => ?_⟩
    · rcases mem_append.mp member with before | now
      · exact marked.used code before
      · obtain ⟨id, inside, rfl⟩ := List.mem_map.mp now
        refine iff_of_false Bool.false_ne_true fun spent => ?_
        exact absurd (marked.past id spent) (Nat.not_lt.mpr (made id inside).1)
    · rcases mem_append.mp member with before | now
      · exact (marked.old code before).trans_le (Nat.le_add_right _ _)
      · obtain ⟨id, inside, rfl⟩ := List.mem_map.mp now
        exact (made id inside).2
    · exact (marked.past id spent).trans_le (Nat.le_add_right _ _)
  | spends job id under unused =>
    obtain ⟨code, member, rfl, unused⟩ := unused
    refine ⟨?_, ?_, ?_, ?_⟩
    · refine nodup_cons.mpr ⟨fun spent => ?_, marked.once⟩
      rw [(marked.used code member).mpr spent] at unused
      cases unused
    · intro other is
      obtain ⟨before, inside, rfl⟩ := List.mem_map.mp is
      rw [spend_used, spend_id, mem_cons, marked.used before inside]
    · intro other is
      obtain ⟨before, inside, rfl⟩ := List.mem_map.mp is
      rw [spend_id]
      exact marked.old before inside
    · intro other spent
      rcases mem_cons.mp spent with rfl | earlier
      · exact marked.old code member
      · exact marked.past other earlier

end

/-! ### Every run -/

theorem Rests.recorded {state : State} (rests : Rests state) : Recorded state := by
  refine ⟨?_, rests.secret, ?_, ?_⟩
  · rw [rests.accepted]
    exact List.Pairwise.nil
  · rw [rests.accepted]
    rintro taken ⟨⟩
  · rw [rests.accepted]
    rintro taken ⟨⟩

theorem Rests.marked {state : State} (rests : Rests state) : Marked state :=
  ⟨rests.spent, rests.used, rests.codes, rests.old⟩

/-- No recovery code is spent twice in any run; and while every code accepted is in force, the
steps accepted of one secret grow. -/
theorem second_factor_spent_once (hotp : Nat → Int → List Char)
    (recoveryCodeMatches : List Char → Nat → Bool) (state : State) (events : List Event)
    (rests : Rests state) :
    Systems.Along (step hotp recoveryCodeMatches) (fun state => state.spent.Nodup) state events ∧
      (Systems.Meets (step hotp recoveryCodeMatches) InForce state events →
        Systems.Along (step hotp recoveryCodeMatches) SpentOnce state events) := by
  constructor
  · exact (Systems.along_of_kept (fun _ _ _ marked taken =>
      marked_step marked (change_of_step taken)) rests.marked events).mono
      fun _ marked => marked.once
  · intro inForce
    have kept : ∀ state event next, Recorded state ∧ Marked state → InForce state event →
        step hotp recoveryCodeMatches state event = some next → Recorded next ∧ Marked next :=
      fun _ _ _ both inForce taken => ⟨recorded_step both.1 inForce (change_of_step taken),
        marked_step both.2 (change_of_step taken)⟩
    exact (Systems.along_of_meets kept ⟨rests.recorded, rests.marked⟩ inForce).mono
      fun _ both => ⟨both.1.steps, both.2.once⟩

/-! ### One code, given twice -/

/-- The first codes of the secret of the digits one to nine and zero, twice. -/
def firstCodes (_ : Nat) (step : Int) : List Char :=
  ((["755224", "287082", "359152", "969429", "338314"][step.toNat]?).getD "254676").toList

/-- Recovery codes told apart by how long they are. -/
def sameLength (typed : List Char) (id : Nat) : Bool := typed.length == id

/-- An account with its second factor on, and no recovery code left. -/
def enrolled : State where
  row := ⟨true, some 0, none, true, false⟩
  codes := []
  jobs := fun _ => .idle
  freshSecret := 1
  freshCode := 0
  accepted := []
  spent := []
  confirmed := some 0
  shown := []

theorem enrolled_rests : Rests enrolled := by
  refine ⟨fun _ => rfl, rfl, ?_, ?_, ?_, nodup_nil, ?_, fun _ => ⟨0, rfl, rfl⟩, fun id => ?_⟩
  · rintro secret ⟨⟩
    exact Nat.zero_lt_one
  · rintro code ⟨⟩
  · rintro code ⟨⟩
  · rintro id ⟨⟩
  · exact iff_of_false not_mem_nil fun both => not_mem_nil both.1

/-- Somebody signs in with the code of the first step, opens a terminal with that of the second, and
gives the first again. -/
def codesInTurn : List Event := [.read 0 .signIn, .check 0 59000 "287 082".toList, .write 0,
  .read 1 .fresh, .check 1 89000 "359152".toList, .write 1,
  .read 2 .signIn, .check 2 89000 "287082".toList]

theorem second_factor_spent_once_codesInTurn :
    Systems.Along (step firstCodes sameLength) SpentOnce enrolled codesInTurn ∧
      (Systems.run (step firstCodes sameLength) enrolled codesInTurn).map State.accepted =
        some [(0, 2), (0, 1)] := by
  refine ⟨(second_factor_spent_once firstCodes sameLength enrolled codesInTurn
    enrolled_rests).2 ?_, by decide +kernel⟩
  refine Systems.meets_cons trivial rfl ?_
  refine Systems.meets_cons trivial rfl ?_
  refine Systems.meets_cons (fun _ => ⟨rfl, rfl⟩) rfl ?_
  refine Systems.meets_cons trivial rfl ?_
  refine Systems.meets_cons trivial rfl ?_
  refine Systems.meets_cons (fun _ => ⟨rfl, by decide +kernel⟩) rfl ?_
  exact ⟨trivial, fun next taken => ⟨trivial, fun next taken => trivial⟩⟩

/-- A terminal is opened and the second factor turned off with one code. -/
def openedAndDisabled : List Event := [.read 0 .fresh, .read 1 .disable,
  .check 0 59000 "287082".toList, .check 1 59000 "287082".toList, .write 0, .write 1]

theorem code_is_accepted_twice :
    (Systems.run (step firstCodes sameLength) enrolled openedAndDisabled).map State.accepted =
      some [(0, 1), (0, 1)] := by
  decide +kernel

/-- A step of a secret is accepted twice. -/
theorem second_factor_spent_twice :
    ¬ ∀ events, Systems.Along (step firstCodes sameLength) SpentOnce enrolled events := by
  intro always
  obtain ⟨last, run, accepted⟩ := map_eq_some_iff.mp code_is_accepted_twice
  have once := (Systems.along_last (always openedAndDisabled) run).steps
  rw [accepted] at once
  exact absurd ((pairwise_cons.mp once).1 (0, 1) (mem_singleton.mpr rfl) rfl)
    (Int.lt_irrefl 1)

end Geeboard.Access
