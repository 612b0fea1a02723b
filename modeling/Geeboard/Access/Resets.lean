/-
This file is about an account that starts over from a new password.

A password is set through a one-time link. The link is spent, the password written
and the second factor taken off, and then the recovery codes, the sessions and the
API keys are ended, each in a statement of its own. Meanwhile links are minted,
people sign in, keys are made and second factors are begun, with what they read
before. Nothing of an earlier password is left by a reset when whatever was obtained
by one is written before the statement that ends its kind, and no second link stands
when the password is written.
-/

import Geeboard.Access.TwoFactor

namespace Geeboard.Access.Resets

open List Option

/-! ### The account and its credentials -/

/-- A secret, and the password it was begun under. Passwords are counted as they are reset. -/
structure Secret where
  id : Nat
  since : Nat
  deriving DecidableEq, Repr

/-- A recovery code, and the password it was made under. -/
structure Code where
  id : Nat
  since : Nat
  used : Bool
  deriving DecidableEq, Repr

/-- What is read of the account. -/
structure Account where
  password : Nat
  passwordSet : Bool
  twoFactor : Bool
  totpSecret : Option Secret
  totpLastStep : Option Int
  deriving DecidableEq, Repr

/-- The passwords whose codes, sessions and keys have been ended. -/
structure Ended where
  codes : Nat
  sessions : Nat
  keys : Nat
  deriving DecidableEq, Repr

/-- Where a request is: what it has read, or the statement under way. What it was let in by counts
from a password. -/
inductive Job where
  | idle
  | pending (since : Nat)
  | coding (since : Nat) (account : Account)
  | claiming (since : Nat) (step : Int)
  | listing (since : Nat) (typed : List Char)
  | spending (since id : Nat)
  | opening (since : Nat)
  | signedIn (since : Nat) (account : Account)
  | making (since : Nat)
  | beginning (since : Nat)
  | confirming (since : Nat) (step : Int)
  | replacing (since : Nat)
  | dropped (since : Nat)
  | minting (since : Nat) (reset : Bool)
  | minted (since : Nat) (reset : Bool)
  | resetSessions
  | resetKeys
  | claimingLink (link : Nat)
  | updating
  | endingCodes (password : Nat)
  | endingSessions (password : Nat)
  | endingKeys (password : Nat)
  | recording (password : Nat)
  deriving DecidableEq, Repr

/-- The account's rows, with the sessions, the keys not revoked and the links not used each by the
password it counts from; the requests; and the newest password whose reset has succeeded. -/
structure State where
  account : Account
  codes : List Code
  sessions : List Nat
  keys : List Nat
  links : List Nat
  jobs : Nat → Job
  fresh : Nat
  ended : Ended
  completed : Nat

def State.setJob (state : State) (job : Nat) (next : Job) : State :=
  { state with jobs := Function.update state.jobs job next }

/-- What somebody signed in asks for. -/
inductive Action where
  | createApiKey
  | beginTwoFactor
  | confirmTwoFactor (clock : Nat) (code : List Char)
  deriving DecidableEq, Repr

/-- Requests begin, go on, have a statement done, or end there; a session, a key or a link ends. -/
inductive Event where
  | signIn (job : Nat)
  | readAgain (job : Nat)
  | typeCode (job : Nat) (clock : Nat) (typed : List Char)
  | request (job session : Nat)
  | act (job : Nat) (action : Action)
  | mint (job : Nat) (reset : Bool)
  | setup (job link : Nat)
  | write (job : Nat)
  | end_ (job : Nat)
  | endSession (session : Nat)
  | revokeKey (key : Nat)
  | expireLink (link : Nat)
  deriving DecidableEq, Repr

/-! ### The requests -/

section

variable (hotp : Nat → Int → List Char) (recoveryCodeMatches : List Char → Nat → Bool)

/-- A code typed after the password. -/
def verifySecondFactor (since : Nat) (account : Account) (clock : Nat) (typed : List Char) : Job :=
  match account.totpSecret with
  | none => .pending since
  | some secret =>
    if !account.twoFactor then .pending since
    else if looksLikeTotp typed then
      match verifyTotp hotp secret.id typed clock account.totpLastStep 1 with
      | some step => .claiming (min since secret.since) step
      | none => .pending since
    else if (normaliseRecoveryCode typed).length < 8 then .pending since
    else .listing since (normaliseRecoveryCode typed)

/-- What somebody signed in asks for, checked against what the request read. -/
def actOn (since : Nat) (account : Account) : Action → Job
  | .createApiKey => .making since
  | .beginTwoFactor =>
    if account.twoFactor || !account.passwordSet then .idle else .beginning since
  | .confirmTwoFactor clock code =>
    match account.totpSecret with
    | none => .idle
    | some secret =>
      if account.twoFactor then .idle
      else match verifyTotp hotp secret.id code clock account.totpLastStep 1 with
        | some step => .confirming since step
        | none => .idle

/-- The code that was typed, of those not used. -/
def matching (codes : List Code) (typed : List Char) : Option Code :=
  codes.find? fun code => !code.used && recoveryCodeMatches typed code.id

/-- The statement a request has under way. -/
def write (state : State) (job : Nat) : Option State :=
  match state.jobs job with
  | .opening since => some { (state.setJob job .idle) with sessions := since :: state.sessions }
  | .claiming since step =>
    if isLater state.account.totpLastStep step then
      some { (state.setJob job (.opening since)) with
        account := { state.account with totpLastStep := some step } }
    else some (state.setJob job (.pending since))
  | .listing since typed =>
    match matching recoveryCodeMatches state.codes typed with
    | some code => some (state.setJob job (.spending (min since code.since) code.id))
    | none => some (state.setJob job (.pending since))
  | .spending since id =>
    if state.codes.any fun code => code.id == id && !code.used then
      some { (state.setJob job (.opening since)) with
        codes := state.codes.map fun code => { code with used := code.used || code.id = id } }
    else some (state.setJob job (.pending since))
  | .making since => some { (state.setJob job .idle) with keys := since :: state.keys }
  | .beginning since =>
    some { (state.setJob job .idle) with
      account := { state.account with
        totpSecret := some ⟨state.fresh, since⟩
        totpLastStep := none }
      fresh := state.fresh + 1 }
  | .confirming since step =>
    if isLater state.account.totpLastStep step then
      some { (state.setJob job (.replacing since)) with
        account := { state.account with totpLastStep := some step, twoFactor := true } }
    else some (state.setJob job .idle)
  | .replacing since => some { (state.setJob job (.dropped since)) with codes := [] }
  | .dropped since =>
    some { (state.setJob job .idle) with
      codes := state.codes ++ (List.range' state.fresh CODES).map fun id => ⟨id, since, false⟩
      fresh := state.fresh + CODES }
  | .minting since reset => some { (state.setJob job (.minted since reset)) with links := [] }
  | .minted since reset =>
    some { (state.setJob job (if reset then .resetSessions else .idle)) with
      links := since :: state.links }
  | .resetSessions => some { (state.setJob job .resetKeys) with sessions := [] }
  | .resetKeys => some { (state.setJob job .idle) with keys := [] }
  | .claimingLink link =>
    if state.links.contains link then
      some { (state.setJob job .updating) with links := state.links.erase link }
    else some (state.setJob job .idle)
  | .updating =>
    some { (state.setJob job (.endingCodes (state.account.password + 1))) with
      account := ⟨state.account.password + 1, true, false, none, none⟩ }
  | .endingCodes password =>
    some { (state.setJob job (.endingSessions password)) with
      codes := []
      ended := { state.ended with codes := max state.ended.codes password } }
  | .endingSessions password =>
    some { (state.setJob job (.endingKeys password)) with
      sessions := []
      ended := { state.ended with sessions := max state.ended.sessions password } }
  | .endingKeys password =>
    some { (state.setJob job (.recording password)) with
      keys := []
      ended := { state.ended with keys := max state.ended.keys password } }
  | .recording password =>
    some { (state.setJob job .idle) with completed := max state.completed password }
  | .idle | .pending _ | .coding _ _ | .signedIn _ _ => none

def step (state : State) : Event → Option State
  | .signIn job =>
    match state.jobs job with
    | .idle =>
      some (state.setJob job
        (if state.account.twoFactor then .pending state.account.password
        else .opening state.account.password))
    | _ => none
  | .readAgain job =>
    match state.jobs job with
    | .pending since => some (state.setJob job (.coding since state.account))
    | _ => none
  | .typeCode job clock typed =>
    match state.jobs job with
    | .coding since account =>
      some (state.setJob job (verifySecondFactor hotp since account clock typed))
    | _ => none
  | .request job session =>
    match state.jobs job with
    | .idle =>
      if state.sessions.contains session then
        some (state.setJob job (.signedIn session state.account))
      else none
    | _ => none
  | .act job action =>
    match state.jobs job with
    | .signedIn since account => some (state.setJob job (actOn hotp since account action))
    | _ => none
  | .mint job reset =>
    match state.jobs job with
    | .idle => some (state.setJob job (.minting state.account.password reset))
    | _ => none
  | .setup job link =>
    match state.jobs job with
    | .idle => some (state.setJob job (.claimingLink link))
    | _ => none
  | .write job => write recoveryCodeMatches state job
  | .end_ job =>
    match state.jobs job with
    | .idle => none
    | _ => some (state.setJob job .idle)
  | .endSession session => some { state with sessions := state.sessions.erase session }
  | .revokeKey key => some { state with keys := state.keys.erase key }
  | .expireLink link => some { state with links := state.links.erase link }

end

/-- An account on its first password, with whatever credentials it has. -/
def beginning (account : Account) (codes : List Code) (sessions keys links : List Nat)
    (fresh : Nat) : State :=
  ⟨{ account with password := 0 }, codes, sessions, keys, links, fun _ => .idle, fresh, ⟨0, 0, 0⟩, 0⟩

/-! ### What is to hold, and when it does -/

/-- No credential that is accepted counts from a password before that of a reset that has
succeeded. -/
structure OnlyNew (state : State) : Prop where
  sessions : ∀ since ∈ state.sessions, state.completed ≤ since
  keys : ∀ since ∈ state.keys, state.completed ≤ since
  links : ∀ since ∈ state.links, state.completed ≤ since
  secret : ∀ secret, state.account.totpSecret = some secret → state.completed ≤ secret.since
  codes : ∀ code ∈ state.codes, code.used = false → state.completed ≤ code.since

/-- What was obtained by a password is written before the statement that ends its kind for a newer
one, and no other link stands when a password is written. -/
def InTime (state : State) : Event → Prop
  | .write job =>
    match state.jobs job with
    | .opening since => state.ended.sessions ≤ since
    | .making since => state.ended.keys ≤ since
    | .dropped since => state.ended.codes ≤ since
    | .beginning since | .minted since _ => state.account.password ≤ since
    | .updating => state.links = []
    | _ => True
  | _ => True

/-! ### Every run -/

/-- How far a reset has come, and so what it has ended. -/
def Job.Ran (password : Nat) (ended : Ended) : Job → Prop
  | .endingCodes own => own ≤ password
  | .endingSessions own => own ≤ password ∧ own ≤ ended.codes
  | .endingKeys own => own ≤ password ∧ own ≤ ended.codes ∧ own ≤ ended.sessions
  | .recording own =>
    own ≤ password ∧ own ≤ ended.codes ∧ own ≤ ended.sessions ∧ own ≤ ended.keys
  | _ => True

/-- What stands is of no password whose kind has been ended, and the resets have ended what they
say. -/
structure Kept (state : State) : Prop where
  sessions : ∀ since ∈ state.sessions, state.ended.sessions ≤ since
  keys : ∀ since ∈ state.keys, state.ended.keys ≤ since
  links : ∀ since ∈ state.links, state.account.password ≤ since
  secret : ∀ secret, state.account.totpSecret = some secret →
    state.account.password ≤ secret.since
  codes : ∀ code ∈ state.codes, state.ended.codes ≤ code.since
  jobs : ∀ job, (state.jobs job).Ran state.account.password state.ended
  completed : state.completed ≤ state.account.password ∧ state.completed ≤ state.ended.codes ∧
    state.completed ≤ state.ended.sessions ∧ state.completed ≤ state.ended.keys

section

variable {state next : State}

theorem Kept.onlyNew (kept : Kept state) : OnlyNew state :=
  ⟨fun since member => kept.completed.2.2.1.trans (kept.sessions since member),
    fun since member => kept.completed.2.2.2.trans (kept.keys since member),
    fun since member => kept.completed.1.trans (kept.links since member),
    fun secret own => kept.completed.1.trans (kept.secret secret own),
    fun code member _ => kept.completed.2.1.trans (kept.codes code member)⟩

theorem ran_mono {password later : Nat} {ended past : Ended} {job : Job} (ran : job.Ran password ended)
    (passwords : password ≤ later) (codes : ended.codes ≤ past.codes)
    (sessions : ended.sessions ≤ past.sessions) (keys : ended.keys ≤ past.keys) :
    job.Ran later past := by
  cases job with
  | endingCodes own => exact ran.trans passwords
  | endingSessions own => exact ⟨ran.1.trans passwords, ran.2.trans codes⟩
  | endingKeys own =>
    exact ⟨ran.1.trans passwords, ran.2.1.trans codes, ran.2.2.trans sessions⟩
  | recording own =>
    exact ⟨ran.1.trans passwords, ran.2.1.trans codes, ran.2.2.1.trans sessions,
      ran.2.2.2.trans keys⟩
  | _ => trivial

/-- The jobs after one of them has moved and something was ended. -/
theorem Kept.ran (kept : Kept state) {job : Nat} {new : Job} {later : Nat} {past : Ended}
    (passwords : state.account.password ≤ later) (codes : state.ended.codes ≤ past.codes)
    (sessions : state.ended.sessions ≤ past.sessions) (keys : state.ended.keys ≤ past.keys)
    (ran : new.Ran later past) (one : Nat) :
    ((state.setJob job new).jobs one).Ran later past := by
  unfold State.setJob
  by_cases same : one = job
  · rw [same]
    dsimp only
    rw [Function.update_self]
    exact ran
  · dsimp only
    rw [Function.update_of_ne same]
    exact ran_mono (kept.jobs one) passwords codes sessions keys

theorem Kept.same (kept : Kept state) {job : Nat} {new : Job}
    (ran : new.Ran state.account.password state.ended) (one : Nat) :
    ((state.setJob job new).jobs one).Ran state.account.password state.ended :=
  kept.ran (le_refl _) (le_refl _) (le_refl _) (le_refl _) ran one

theorem Kept.setJob (kept : Kept state) {job : Nat} {new : Job}
    (ran : new.Ran state.account.password state.ended) : Kept (state.setJob job new) :=
  ⟨kept.sessions, kept.keys, kept.links, kept.secret, kept.codes, kept.same ran, kept.completed⟩

theorem kept_write {recoveryCodeMatches : List Char → Nat → Bool} {job : Nat} (kept : Kept state)
    (inTime : InTime state (.write job)) (taken : write recoveryCodeMatches state job = some next) :
    Kept next := by
  have own := kept.jobs job
  unfold write at taken
  unfold InTime at inTime
  dsimp only at inTime
  split at taken
  · rename_i since under
    simp only [under] at inTime
    cases taken
    exact ⟨forall_mem_cons.mpr ⟨inTime, kept.sessions⟩, kept.keys, kept.links, kept.secret,
      kept.codes, kept.same trivial, kept.completed⟩
  · split at taken
    · cases taken
      exact ⟨kept.sessions, kept.keys, kept.links, kept.secret, kept.codes, kept.same trivial,
        kept.completed⟩
    · cases taken
      exact kept.setJob trivial
  · split at taken
    · cases taken
      exact kept.setJob trivial
    · cases taken
      exact kept.setJob trivial
  · split at taken
    · cases taken
      refine ⟨kept.sessions, kept.keys, kept.links, kept.secret, ?_, kept.same trivial,
        kept.completed⟩
      intro code member
      obtain ⟨before, inside, rfl⟩ := List.mem_map.mp member
      exact kept.codes before inside
    · cases taken
      exact kept.setJob trivial
  · rename_i since under
    simp only [under] at inTime
    cases taken
    exact ⟨kept.sessions, forall_mem_cons.mpr ⟨inTime, kept.keys⟩, kept.links, kept.secret,
      kept.codes, kept.same trivial, kept.completed⟩
  · rename_i since under
    simp only [under] at inTime
    cases taken
    refine ⟨kept.sessions, kept.keys, kept.links, ?_, kept.codes, kept.same trivial,
      kept.completed⟩
    rintro secret ⟨⟩
    exact inTime
  · split at taken
    · cases taken
      exact ⟨kept.sessions, kept.keys, kept.links, kept.secret, kept.codes, kept.same trivial,
        kept.completed⟩
    · cases taken
      exact kept.setJob trivial
  · cases taken
    exact ⟨kept.sessions, kept.keys, kept.links, kept.secret, forall_mem_nil _,
      kept.same trivial, kept.completed⟩
  · rename_i since under
    simp only [under] at inTime
    cases taken
    refine ⟨kept.sessions, kept.keys, kept.links, kept.secret, ?_, kept.same trivial,
      kept.completed⟩
    refine forall_mem_append.mpr ⟨kept.codes, fun code member => ?_⟩
    obtain ⟨id, -, rfl⟩ := List.mem_map.mp member
    exact inTime
  · cases taken
    exact ⟨kept.sessions, kept.keys, forall_mem_nil _, kept.secret, kept.codes,
      kept.same trivial, kept.completed⟩
  · rename_i since reset under
    simp only [under] at inTime
    have ran : Job.Ran state.account.password state.ended
        (if reset then .resetSessions else .idle) := by
      split <;> trivial
    cases taken
    exact ⟨kept.sessions, kept.keys, forall_mem_cons.mpr ⟨inTime, kept.links⟩, kept.secret,
      kept.codes, kept.same ran, kept.completed⟩
  · cases taken
    exact ⟨forall_mem_nil _, kept.keys, kept.links, kept.secret, kept.codes,
      kept.same trivial, kept.completed⟩
  · cases taken
    exact ⟨kept.sessions, forall_mem_nil _, kept.links, kept.secret, kept.codes,
      kept.same trivial, kept.completed⟩
  · split at taken
    · cases taken
      exact ⟨kept.sessions, kept.keys, fun since member => kept.links since
        (mem_of_mem_erase member), kept.secret, kept.codes, kept.same trivial, kept.completed⟩
    · cases taken
      exact kept.setJob trivial
  · rename_i under
    simp only [under] at inTime
    cases taken
    have newer := Nat.le_succ state.account.password
    refine ⟨kept.sessions, kept.keys, ?_, ?_, kept.codes,
      kept.ran newer (le_refl _) (le_refl _) (le_refl _) (le_refl _),
      kept.completed.1.trans newer, kept.completed.2⟩
    · dsimp only
      rw [show (state.setJob job _).links = state.links from rfl, inTime]
      exact forall_mem_nil _
    · rintro secret ⟨⟩
  · rename_i password under
    rw [under] at own
    cases taken
    have newer := Nat.le_max_left state.ended.codes password
    exact ⟨kept.sessions, kept.keys, kept.links, kept.secret, forall_mem_nil _,
      kept.ran (le_refl _) newer (le_refl _) (le_refl _) ⟨own, Nat.le_max_right _ _⟩,
      kept.completed.1, kept.completed.2.1.trans newer, kept.completed.2.2⟩
  · rename_i password under
    rw [under] at own
    cases taken
    have newer := Nat.le_max_left state.ended.sessions password
    exact ⟨forall_mem_nil _, kept.keys, kept.links, kept.secret, kept.codes,
      kept.ran (le_refl _) (le_refl _) newer (le_refl _) ⟨own.1, own.2, Nat.le_max_right _ _⟩,
      kept.completed.1, kept.completed.2.1, kept.completed.2.2.1.trans newer, kept.completed.2.2.2⟩
  · rename_i password under
    rw [under] at own
    cases taken
    have newer := Nat.le_max_left state.ended.keys password
    exact ⟨kept.sessions, forall_mem_nil _, kept.links, kept.secret, kept.codes,
      kept.ran (le_refl _) (le_refl _) (le_refl _) newer
        ⟨own.1, own.2.1, own.2.2, Nat.le_max_right _ _⟩,
      kept.completed.1, kept.completed.2.1, kept.completed.2.2.1,
      kept.completed.2.2.2.trans newer⟩
  · rename_i password under
    rw [under] at own
    cases taken
    exact ⟨kept.sessions, kept.keys, kept.links, kept.secret, kept.codes, kept.same trivial,
      Nat.max_le.mpr ⟨kept.completed.1, own.1⟩, Nat.max_le.mpr ⟨kept.completed.2.1, own.2.1⟩,
      Nat.max_le.mpr ⟨kept.completed.2.2.1, own.2.2.1⟩,
      Nat.max_le.mpr ⟨kept.completed.2.2.2, own.2.2.2⟩⟩
  · cases taken
  · cases taken
  · cases taken
  · cases taken

variable {hotp : Nat → Int → List Char} {recoveryCodeMatches : List Char → Nat → Bool}

theorem verifySecondFactor_ran (since : Nat) (account : Account) (clock : Nat) (typed : List Char)
    (password : Nat) (ended : Ended) :
    (verifySecondFactor hotp since account clock typed).Ran password ended := by
  unfold verifySecondFactor
  split
  · trivial
  · split
    · trivial
    · split
      · split <;> trivial
      · split <;> trivial

theorem actOn_ran (since : Nat) (account : Account) (action : Action) (password : Nat)
    (ended : Ended) : (actOn hotp since account action).Ran password ended := by
  cases action with
  | createApiKey => trivial
  | beginTwoFactor =>
    unfold actOn
    dsimp only
    split <;> trivial
  | confirmTwoFactor clock code =>
    unfold actOn
    dsimp only
    split
    · trivial
    · split
      · trivial
      · split <;> trivial

theorem kept_step {event : Event} (kept : Kept state) (inTime : InTime state event)
    (taken : step hotp recoveryCodeMatches state event = some next) : Kept next := by
  cases event with
  | write job => exact kept_write kept inTime taken
  | signIn job =>
    unfold step at taken
    dsimp only at taken
    split at taken
    · cases taken
      refine kept.setJob ?_
      split <;> trivial
    · cases taken
  | readAgain job | mint job reset | setup job link =>
    unfold step at taken
    dsimp only at taken
    split at taken
    · cases taken
      exact kept.setJob trivial
    · cases taken
  | typeCode job clock typed =>
    unfold step at taken
    dsimp only at taken
    split at taken
    · cases taken
      exact kept.setJob (verifySecondFactor_ran _ _ _ _ _ _)
    · cases taken
  | request job session =>
    unfold step at taken
    dsimp only at taken
    split at taken
    · split at taken
      · cases taken
        exact kept.setJob trivial
      · cases taken
    · cases taken
  | act job action =>
    unfold step at taken
    dsimp only at taken
    split at taken
    · cases taken
      exact kept.setJob (actOn_ran _ _ _ _ _)
    · cases taken
  | end_ job =>
    unfold step at taken
    dsimp only at taken
    split at taken
    · cases taken
    · cases taken
      exact kept.setJob trivial
  | endSession session =>
    cases taken
    exact ⟨fun since member => kept.sessions since (mem_of_mem_erase member), kept.keys,
      kept.links, kept.secret, kept.codes, kept.jobs, kept.completed⟩
  | revokeKey key =>
    cases taken
    exact ⟨kept.sessions, fun since member => kept.keys since (mem_of_mem_erase member),
      kept.links, kept.secret, kept.codes, kept.jobs, kept.completed⟩
  | expireLink link =>
    cases taken
    exact ⟨kept.sessions, kept.keys, fun since member => kept.links since
      (mem_of_mem_erase member), kept.secret, kept.codes, kept.jobs, kept.completed⟩

end

/-- When everything obtained by a password is written in time, no credential of an earlier password
is accepted after a reset has succeeded. -/
theorem reset_ends_earlier_credentials (hotp : Nat → Int → List Char)
    (recoveryCodeMatches : List Char → Nat → Bool) (account : Account) (codes : List Code)
    (sessions keys links : List Nat) (fresh : Nat) (events : List Event)
    (inTime : Systems.Meets (step hotp recoveryCodeMatches) InTime
      (beginning account codes sessions keys links fresh) events) :
    Systems.Along (step hotp recoveryCodeMatches) OnlyNew
      (beginning account codes sessions keys links fresh) events := by
  refine (Systems.along_of_meets (fun _ _ _ kept inTime taken => kept_step kept inTime taken) ?_
    inTime).mono fun _ kept => kept.onlyNew
  exact ⟨fun _ _ => Nat.zero_le _, fun _ _ => Nat.zero_le _, fun _ _ => Nat.zero_le _,
    fun _ _ => Nat.zero_le _, fun _ _ => Nat.zero_le _, fun _ => trivial,
    Nat.zero_le _, Nat.zero_le _, Nat.zero_le _, Nat.zero_le _⟩

/-! ### A reset beside a sign-in -/

/-- An account with a password and a link to set another. -/
def linked (links : List Nat) : State :=
  beginning ⟨0, true, false, none, none⟩ [] [] [] links 0

def noCode (_ : Nat) (_ : Int) : List Char := []

def noRecoveryCode (_ : List Char) (_ : Nat) : Bool := false

/-- Somebody signs in, and then a new password is set. -/
def signInThenReset : List Event := [.signIn 0, .write 0, .setup 1 0, .write 1, .write 1, .write 1,
  .write 1, .write 1, .write 1]

theorem reset_ends_earlier_credentials_signIn :
    Systems.Along (step noCode noRecoveryCode) OnlyNew (linked [0]) signInThenReset := by
  refine reset_ends_earlier_credentials noCode noRecoveryCode _ _ _ _ _ _ signInThenReset ?_
  refine Systems.meets_cons trivial rfl ?_
  refine Systems.meets_cons (Nat.zero_le _) rfl ?_
  refine Systems.meets_cons trivial rfl ?_
  refine Systems.meets_cons trivial rfl ?_
  refine Systems.meets_cons rfl rfl ?_
  refine Systems.meets_cons trivial rfl ?_
  refine Systems.meets_cons trivial rfl ?_
  refine Systems.meets_cons trivial rfl ?_
  exact ⟨trivial, fun next taken => trivial⟩

/-- Somebody has the old password checked, and their session is opened when the new one is set. -/
def resetThenOpened : List Event := [.signIn 0, .setup 1 0, .write 1, .write 1, .write 1, .write 1,
  .write 1, .write 1, .write 0]

/-- Two resets are issued at once, and one of the links is used. -/
def twoLinks : List Event := [.mint 0 true, .mint 1 true, .write 0, .write 1, .write 0, .write 1,
  .setup 2 0, .write 2, .write 2, .write 2, .write 2, .write 2, .write 2]

theorem session_of_old_password :
    (Systems.run (step noCode noRecoveryCode) (linked [0]) resetThenOpened).map (fun last =>
      (last.completed, last.sessions)) = some (1, [0]) := by
  decide +kernel

theorem link_of_old_password :
    (Systems.run (step noCode noRecoveryCode) (linked []) twoLinks).map (fun last =>
      (last.completed, last.links)) = some (1, [0]) := by
  decide +kernel

/-- A session of the old password, and a link from before, are there after the reset. -/
theorem earlier_credentials_survive :
    (¬ ∀ events, Systems.Along (step noCode noRecoveryCode) OnlyNew (linked [0]) events) ∧
      ¬ ∀ events, Systems.Along (step noCode noRecoveryCode) OnlyNew (linked []) events := by
  constructor
  · intro always
    obtain ⟨last, run, both⟩ := map_eq_some_iff.mp session_of_old_password
    obtain ⟨completed, sessions⟩ := Prod.mk.inj both
    have new := (Systems.along_last (always resetThenOpened) run).sessions
    rw [completed, sessions] at new
    exact absurd (new 0 (mem_singleton.mpr rfl)) (by decide)
  · intro always
    obtain ⟨last, run, both⟩ := map_eq_some_iff.mp link_of_old_password
    obtain ⟨completed, links⟩ := Prod.mk.inj both
    have new := (Systems.along_last (always twoLinks) run).links
    rw [completed, links] at new
    exact absurd (new 0 (mem_singleton.mpr rfl)) (by decide)

end Geeboard.Access.Resets
