/-
This file is about what an account's owner can pass with once the second factor is on.

The secret in force should be the one whose code was given, and the recovery codes
that work the last ones shown, without those spent. Beginning writes a secret over
whatever there is, confirming turns on whatever secret is there by then, and a set of
codes is replaced in two statements, so operations that overlap can part the owner
from both. They do not when no secret is changed between a confirmation's code and its
statement, and each set of codes that is deleted is made again before another is.
-/

import Geeboard.Access.SpentOnce

namespace Geeboard.Access

open List Option

/-! ### What is to hold, and when it does -/

/-- The secret in force is the one whose code was given when it was confirmed. -/
def State.SecretConfirmed (state : State) : Prop :=
  ∃ secret, state.row.totpSecret = some secret ∧ state.confirmed = some secret

/-- The codes that work are those of the last set shown that are not spent. -/
def State.CodesShown (state : State) : Prop :=
  ∀ id, id ∈ state.live ↔ id ∈ state.shown ∧ id ∉ state.spent

/-- With its second factor on, the account can be passed by its owner. -/
def Passable (state : State) : Prop :=
  state.row.twoFactor = true → state.SecretConfirmed ∧ state.CodesShown

/-- The second factor is off by this operation, and its codes are not deleted yet. -/
def Job.disabling : Job → Bool
  | .disabled => true
  | _ => false

/-- No operation is between two statements that this says belong together. -/
def State.Without (between : Job → Bool) (state : State) : Prop :=
  ∀ job, between (state.jobs job) = false

/-- With its second factor on, the account can be passed by its owner, but for the recovery codes
while a set of them is deleted and not made again. -/
def PassableAtRest (state : State) : Prop :=
  state.row.twoFactor = true →
    state.SecretConfirmed ∧ (state.Without Job.halfDone → state.CodesShown)

/-- A secret is begun while the second factor is off; it is turned on with the secret that the code
was checked against, and not before the codes of a factor turned off are deleted; a set of codes is
made when none is left. -/
def Undisturbed (state : State) : Event → Prop
  | .write job =>
    match state.jobs job with
    | .beginning => state.row.twoFactor = false
    | .claiming operation secret step =>
      operation = .confirm → isLater state.row.totpLastStep step = true →
        state.row.totpSecret = some secret ∧ state.Without Job.disabling
    | .dropped => state.live = [] ∧ state.Without Job.disabling
    | _ => True
  | _ => True

/-- No operation ends between two statements that belong together. -/
def Finished (state : State) : Event → Prop
  | .end_ job => (state.jobs job).halfDone = false
  | _ => True

/-- No operation ends between turning the second factor off and deleting its codes, and codes are
deleted for others only when none is left. -/
def Gapless (state : State) : Event → Prop
  | .end_ job => (state.jobs job).disabling = false
  | .write job => state.jobs job = .replacing → state.live = []
  | _ => True

/-! ### The jobs -/

section

variable {state next : State} {between : Job → Bool} {job : Nat} {new : Job}

theorem setJob_other {other : Nat} (different : other ≠ job) :
    (state.setJob job new).jobs other = state.jobs other := Function.update_of_ne different _ _

theorem setJob_same : (state.setJob job new).jobs job = new := by
  unfold State.setJob
  exact Function.update_self job new state.jobs

theorem State.Without.setJob (without : state.Without between) (whole : between new = false) :
    (state.setJob job new).Without between := by
  intro one
  by_cases same : one = job
  · rw [same, setJob_same]
    exact whole
  · rw [setJob_other same]
    exact without one

/-- When an operation that was between no two statements moves, there are none between now only if
there were none before. -/
theorem State.Without.before (without : (state.setJob job new).Without between)
    (whole : between (state.jobs job) = false) : state.Without between := by
  intro one
  by_cases same : one = job
  · rw [same]
    exact whole
  · rw [← @setJob_other state job new one same]
    exact without one

theorem State.Without.absurd_same (without : (state.setJob job new).Without between)
    (half : between new = true) : False := by
  have whole := without job
  rw [setJob_same, half] at whole
  cases whole

theorem disabling_of_whole (whole : new.halfDone = false) : new.disabling = false := by
  cases new with
  | disabled => cases whole
  | _ => rfl

/-! ### The secret -/

/-- The secret in force was confirmed; while the codes of a factor turned off are still there, it
is off and no codes are shown. -/
structure Held (state : State) : Prop where
  secret : state.row.twoFactor = true → state.SecretConfirmed
  off : ¬ state.Without Job.disabling → state.row.twoFactor = false ∧ state.shown = []

/-- A step that leaves the second factor, its secret and the codes shown leaves what is held, where
it begins no turning off. -/
theorem Held.same (held : Held state)
    (calm : state.Without Job.disabling → next.Without Job.disabling)
    (twoFactor : next.row.twoFactor = state.row.twoFactor)
    (secret : next.row.totpSecret = state.row.totpSecret)
    (confirmed : next.confirmed = state.confirmed) (shown : next.shown = state.shown) :
    Held next := by
  refine ⟨fun on => ?_, fun disabling => ?_⟩
  · rw [twoFactor] at on
    unfold State.SecretConfirmed
    rw [secret, confirmed]
    exact held.secret on
  · rw [twoFactor, shown]
    exact held.off fun clear => disabling (calm clear)

theorem held_step {event : Event} (held : Held state) (undisturbed : Undisturbed state event)
    (change : Change state event next) : Held next := by
  cases change with
  | moves event job new whole from_ =>
    exact held.same (fun clear => clear.setJob (disabling_of_whole whole)) rfl rfl rfl rfl
  | becomes => exact held.same id rfl rfl rfl rfl
  | begins job under =>
    unfold Undisturbed at undisturbed
    simp only [under] at undisturbed
    refine ⟨fun on => ?_, fun disabling => ?_⟩
    · rw [undisturbed] at on
      cases on
    · exact held.off fun clear => disabling (clear.setJob rfl)
  | disables job secret step under =>
    refine ⟨?_, fun _ => ⟨rfl, rfl⟩⟩
    rintro ⟨⟩
  | claims job operation secret step under other later =>
    unfold Undisturbed at undisturbed
    simp only [under] at undisturbed
    have calm : state.Without Job.disabling → (state.setJob job (afterClaim operation)).Without
        Job.disabling := fun clear => clear.setJob (disabling_of_whole (afterClaim_whole operation))
    by_cases confirms : operation = .confirm
    · obtain ⟨own, clear⟩ := undisturbed confirms later
      refine ⟨fun _ => ⟨secret, own, if_pos confirms⟩, fun disabling => ?_⟩
      exact absurd (calm clear) disabling
    · refine held.same calm ?_ rfl (if_neg confirms) rfl
      unfold claimed
      dsimp only
      rw [decide_eq_false confirms, Bool.false_or]
  | drops job under => exact held.same (fun clear => clear.setJob rfl) rfl rfl rfl rfl
  | creates job under =>
    unfold Undisturbed at undisturbed
    simp only [under] at undisturbed
    refine ⟨held.secret, fun disabling => ?_⟩
    exact absurd (undisturbed.2.setJob rfl) disabling
  | clears job under => exact held.same (fun clear => clear.setJob rfl) rfl rfl rfl rfl
  | spends job id under unused =>
    exact held.same (fun clear => clear.setJob rfl) rfl rfl rfl rfl

/-! ### The recovery codes -/

theorem mem_live {id : Nat} :
    id ∈ state.live ↔ ∃ code ∈ state.codes, code.id = id ∧ code.used = false := by
  unfold State.live
  rw [List.mem_map]
  constructor
  · rintro ⟨code, member, same⟩
    obtain ⟨inside, unused⟩ := mem_filter.mp member
    rw [Bool.not_eq_true'] at unused
    exact ⟨code, inside, same, unused⟩
  · rintro ⟨code, inside, same, unused⟩
    exact ⟨code, mem_filter.mpr ⟨inside, by rw [unused]; rfl⟩, same⟩

theorem CodesShown.create (marked : Marked state) (none_ : state.live = []) (made : List Nat)
    (fresh : ∀ id ∈ made, state.freshCode ≤ id)
    (codes : next.codes = state.codes ++ made.map fun id => ⟨id, false⟩)
    (shown : next.shown = made) (spent : next.spent = state.spent) : next.CodesShown := by
  intro id
  rw [mem_live, codes, shown, spent]
  constructor
  · rintro ⟨code, member, rfl, unused⟩
    rcases mem_append.mp member with before | now
    · have alive := mem_live.mpr ⟨code, before, rfl, unused⟩
      rw [none_] at alive
      cases alive
    · obtain ⟨id, inside, rfl⟩ := List.mem_map.mp now
      exact ⟨inside, fun spent => Nat.not_lt.mpr (fresh id inside) (marked.past id spent)⟩
  · rintro ⟨inside, -⟩
    exact ⟨⟨id, false⟩, mem_append_right _ (List.mem_map_of_mem inside), rfl, rfl⟩

theorem CodesShown.spend (shown : state.CodesShown) {id : Nat}
    (codes : next.codes = state.codes.map (spend id)) (spent : next.spent = id :: state.spent)
    (same : next.shown = state.shown) : next.CodesShown := by
  intro other
  rw [mem_live, codes, spent, same]
  constructor
  · rintro ⟨code, member, rfl, unused⟩
    obtain ⟨before, inside, rfl⟩ := List.mem_map.mp member
    have fresh : ¬ (before.id = id ∨ before.used = true) := by
      rw [← spend_used, unused]
      exact Bool.false_ne_true
    obtain ⟨different, unspent⟩ := not_or.mp fresh
    rw [spend_id]
    obtain ⟨inShown, notSpent⟩ := (shown before.id).mp
      (mem_live.mpr ⟨before, inside, rfl, Bool.eq_false_iff.mpr unspent⟩)
    exact ⟨inShown, fun is => (mem_cons.mp is).elim different notSpent⟩
  · rintro ⟨inShown, unspent⟩
    obtain ⟨different, notSpent⟩ := not_or.mp (mem_cons.not.mp unspent)
    obtain ⟨code, inside, rfl, unused⟩ := mem_live.mp ((shown other).mpr ⟨inShown, notSpent⟩)
    refine ⟨Access.spend id code, List.mem_map_of_mem inside, spend_id id code, ?_⟩
    rw [Bool.eq_false_iff, Ne, spend_used, unused]
    exact fun either => either.elim different Bool.false_ne_true

/-- One way of saying what belongs together: turning off and deleting does, no single statement
does, no operation ends in between, and where deleting and making a set does not, none is left when
it is deleted. -/
structure Belongs (between : Job → Bool) (state : State) (event : Event) : Prop where
  single : ∀ job : Job, job.halfDone = false → between job = false
  off : ∀ job : Job, job.disabling = true → between job = true
  finished : ∀ job, event = .end_ job → between (state.jobs job) = false
  gapless : ∀ job, event = .write job → state.jobs job = .replacing →
    between .dropped = true ∨ state.live = []

theorem codesShown_step {event : Event} (marked : Marked state) (held : Held state)
    (shown : state.Without between → state.CodesShown) (undisturbed : Undisturbed state event)
    (belongs : Belongs between state event) (change : Change state event next)
    (without : next.Without between) : next.CodesShown := by
  cases change with
  | moves event job new whole from_ =>
    refine shown (without.before ?_)
    rcases from_ with single | ended
    · exact belongs.single _ single
    · exact belongs.finished job ended
  | becomes => exact shown without
  | begins job under =>
    have before : (state.setJob job .idle).Without between := without
    exact shown (before.before (belongs.single _ (by rw [under]; rfl)))
  | disables job secret step under =>
    have after : (state.setJob job .disabled).Without between := without
    exact (after.absurd_same (belongs.off _ rfl)).elim
  | claims job operation secret step under other later =>
    have after : (state.setJob job (afterClaim operation)).Without between := without
    exact shown (after.before (belongs.single _ (by rw [under]; rfl)))
  | drops job under =>
    have after : (state.setJob job .dropped).Without between := without
    rcases belongs.gapless job rfl under with half | none_
    · exact (after.absurd_same half).elim
    · have same := shown (after.before (belongs.single _ (by rw [under]; rfl)))
      unfold State.CodesShown at same
      rw [none_] at same
      exact same
  | creates job under =>
    unfold Undisturbed at undisturbed
    simp only [under] at undisturbed
    exact CodesShown.create marked undisturbed.1 _ (fun id made => (mem_range'_1.mp made).1)
      rfl rfl rfl
  | clears job under =>
    have disabling : ¬ state.Without Job.disabling := by
      intro clear
      have whole := clear job
      rw [under] at whole
      cases whole
    have none_ := (held.off disabling).2
    refine fun id => iff_of_false not_mem_nil fun both => ?_
    have inside : id ∈ state.shown := both.1
    rw [none_] at inside
    cases inside
  | spends job id under unused =>
    have after : (state.setJob job .idle).Without between := without
    exact CodesShown.spend (shown (after.before (belongs.single _ (by rw [under]; rfl)))) rfl rfl rfl

end

/-! ### Every run -/

/-- What holds of an account in every state of a run. -/
structure Kept (between : Job → Bool) (state : State) : Prop where
  marked : Marked state
  held : Held state
  shown : state.Without between → state.CodesShown

theorem kept_step {hotp : Nat → Int → List Char} {recoveryCodeMatches : List Char → Nat → Bool}
    {state next : State} {between : Job → Bool} {event : Event} (kept : Kept between state)
    (undisturbed : Undisturbed state event) (belongs : Belongs between state event)
    (taken : step hotp recoveryCodeMatches state event = some next) : Kept between next := by
  have change := change_of_step taken
  exact ⟨marked_step kept.marked change, held_step kept.held undisturbed change,
    codesShown_step kept.marked kept.held kept.shown undisturbed belongs change⟩

theorem Rests.kept {state : State} (between : Job → Bool) (rests : Rests state) :
    Kept between state := by
  refine ⟨rests.marked, ⟨rests.confirmed, fun disabling => ?_⟩, fun _ => rests.shown⟩
  refine absurd (fun job => ?_) disabling
  rw [rests.jobs]
  rfl

theorem belongs_of_finished {state : State} {event : Event} (finished : Finished state event) :
    Belongs Job.halfDone state event := by
  refine ⟨fun _ whole => whole, fun job half => ?_, ?_, fun _ _ _ => .inl rfl⟩
  · cases job with
    | disabled => rfl
    | _ => cases half
  · rintro job rfl
    exact finished

theorem belongs_of_gapless {state : State} {event : Event} (gapless : Gapless state event) :
    Belongs Job.disabling state event := by
  refine ⟨fun _ => disabling_of_whole, fun _ half => half, ?_, ?_⟩
  · rintro job rfl
    exact gapless
  · rintro job rfl under
    exact .inr (gapless under)

/-- While no secret is changed under a confirmation and no set of codes is made beside another, the
owner can pass the account whenever its second factor is on: at rest when every operation goes on
to its end, and in every state when no codes are deleted that are still to be replaced. -/
theorem owner_passes (hotp : Nat → Int → List Char)
    (recoveryCodeMatches : List Char → Nat → Bool) (state : State) (events : List Event)
    (rests : Rests state)
    (undisturbed : Systems.Meets (step hotp recoveryCodeMatches) Undisturbed state events) :
    (Systems.Meets (step hotp recoveryCodeMatches) Gapless state events →
      Systems.Along (step hotp recoveryCodeMatches) Passable state events) ∧
    (Systems.Meets (step hotp recoveryCodeMatches) Finished state events →
      Systems.Along (step hotp recoveryCodeMatches) PassableAtRest state events) := by
  constructor
  · intro gapless
    refine (Systems.along_of_meets (fun _ _ _ kept both taken =>
      kept_step kept both.1 (belongs_of_gapless both.2) taken) (rests.kept Job.disabling)
      (undisturbed.and gapless)).mono fun state kept on => ?_
    refine ⟨kept.held.secret on, kept.shown (Classical.byContradiction fun disabling => ?_)⟩
    rw [(kept.held.off disabling).1] at on
    cases on
  · intro finished
    exact (Systems.along_of_meets (fun _ _ _ kept both taken =>
      kept_step kept both.1 (belongs_of_finished both.2) taken) (rests.kept Job.halfDone)
      (undisturbed.and finished)).mono fun state kept on => ⟨kept.held.secret on, kept.shown⟩

/-! ### Two tabs -/

/-- An account whose second factor was never begun. -/
def newAccount : State where
  row := ⟨false, none, none, true, false⟩
  codes := []
  jobs := fun _ => .idle
  freshSecret := 0
  freshCode := 0
  accepted := []
  spent := []
  confirmed := none
  shown := []

theorem newAccount_rests : Rests newAccount := by
  refine ⟨fun _ => rfl, rfl, ?_, ?_, ?_, nodup_nil, ?_, ?_, fun id => ?_⟩
  · rintro secret ⟨⟩
  · rintro code ⟨⟩
  · rintro code ⟨⟩
  · rintro id ⟨⟩
  · rintro ⟨⟩
  · exact iff_of_false not_mem_nil fun both => not_mem_nil both.1

/-- A second factor is begun and confirmed, and its recovery codes are made. -/
def enrolment : List Event := [.read 0 .begin_, .check 0 0 [], .write 0, .read 0 .confirm,
  .check 0 59000 "287082".toList, .write 0, .write 0, .write 0]

theorem owner_passes_enrolment :
    Systems.Along (step firstCodes sameLength) Passable newAccount enrolment := by
  refine (owner_passes firstCodes sameLength newAccount enrolment newAccount_rests ?_).1 ?_
  · refine Systems.meets_cons trivial rfl ?_
    refine Systems.meets_cons trivial rfl ?_
    refine Systems.meets_cons rfl rfl ?_
    refine Systems.meets_cons trivial rfl ?_
    refine Systems.meets_cons trivial rfl ?_
    refine Systems.meets_cons (fun _ _ => ⟨rfl, fun job => by cases job <;> rfl⟩) rfl ?_
    refine Systems.meets_cons trivial rfl ?_
    exact ⟨⟨rfl, fun job => by cases job <;> rfl⟩, fun next taken => trivial⟩
  · refine Systems.meets_cons trivial rfl ?_
    refine Systems.meets_cons trivial rfl ?_
    refine Systems.meets_cons nofun rfl ?_
    refine Systems.meets_cons trivial rfl ?_
    refine Systems.meets_cons trivial rfl ?_
    refine Systems.meets_cons nofun rfl ?_
    refine Systems.meets_cons (fun _ => rfl) rfl ?_
    exact ⟨by rintro ⟨⟩, fun next taken => trivial⟩

/-- The setup is begun in one tab, and again in another while the first secret's code is on its
way. -/
def twoTabs : List Event := [.read 0 .begin_, .read 1 .begin_, .check 0 0 [], .write 0,
  .read 2 .confirm, .check 2 59000 "287082".toList, .check 1 0 [], .write 1, .write 2]

/-- The recovery codes are made again in two tabs, with a code each. -/
def twoSets : List Event := [.read 0 .regenerate, .read 1 .regenerate,
  .check 0 59000 "287082".toList, .write 0, .check 1 60000 "359152".toList, .write 1,
  .write 0, .write 1, .write 0, .write 1]

theorem other_secret_is_on :
    (Systems.run (step firstCodes sameLength) newAccount twoTabs).map (fun last =>
      (last.row.twoFactor, last.row.totpSecret, last.confirmed)) =
        some (true, some 1, some 0) := by
  decide +kernel

theorem two_sets_work :
    (Systems.run (step firstCodes sameLength) enrolled twoSets).map (fun last =>
      (last.row.twoFactor, last.live, last.shown, (last.jobs 0).halfDone, (last.jobs 1).halfDone)) =
        some (true, List.range 20, List.range' 10 10, false, false) := by
  decide +kernel

/-- A secret is on that no code was given of, and codes work beside those shown. -/
theorem owner_is_locked_out :
    (¬ ∀ events, Systems.Along (step firstCodes sameLength) Passable newAccount events) ∧
      ¬ ∀ events, Systems.Along (step firstCodes sameLength) Passable enrolled events := by
  constructor
  · intro always
    obtain ⟨last, run, row⟩ := map_eq_some_iff.mp other_secret_is_on
    obtain ⟨on, row⟩ := Prod.mk.inj row
    obtain ⟨own, given⟩ := Prod.mk.inj row
    obtain ⟨secret, is, was⟩ := (Systems.along_last (always twoTabs) run on).1
    rw [own] at is
    rw [given, ← is] at was
    cases was
  · intro always
    obtain ⟨last, run, row⟩ := map_eq_some_iff.mp two_sets_work
    obtain ⟨on, row⟩ := Prod.mk.inj row
    obtain ⟨live, row⟩ := Prod.mk.inj row
    obtain ⟨shown, -⟩ := Prod.mk.inj row
    have codes := (Systems.along_last (always twoSets) run on).2 0
    rw [live, shown] at codes
    exact absurd (codes.mp (by decide)).1 (by decide)

end Geeboard.Access
