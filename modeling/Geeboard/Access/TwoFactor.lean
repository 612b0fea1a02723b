/-
This file is the second factor of one account.

An account begins with a secret that is not yet in force, confirms it with a code,
and passes by a code of the secret or by one of ten recovery codes from then on.
Every operation reads the account once, checks what was typed against what it read,
and then writes in statements of its own; the operations of one account take turns
at every statement. A code of the secret is spent by the statement that writes its
time step down, where the account's last one is earlier. Turning the second factor
off accepts a code too, and does not write it down.
-/

import Geeboard.Systems.Steps
import Geeboard.Text.Lines
import Mathlib.Logic.Function.Basic

namespace Geeboard.Access

open Text (isSpace)

/-! ### Codes -/

/-- The digits of a code, with the blanks an authenticator shows them with taken out. -/
def typedDigits (code : List Char) : List Char := code.filter fun char => !isSpace char

/-- Six digits. -/
def looksLikeTotp (typed : List Char) : Bool :=
  (typedDigits typed).length == 6 && (typedDigits typed).all Char.isDigit

/-- The letter a character is in lower case, where that is one a recovery code may have: two
characters beyond ASCII have such a letter too. -/
def lowerCase (char : Char) : Char :=
  if char.toNat = 0x212A then 'k' else if char.toNat = 0x130 then 'i' else char.toLower

/-- A recovery code as typed, with or without its hyphen, in either case. -/
def normaliseRecoveryCode (typed : List Char) : List Char :=
  (typed.map lowerCase).filter fun char =>
    ('a' ≤ char && char ≤ 'z') || ('0' ≤ char && char ≤ '9')

def TOTP_STEP_S : Nat := 30

/-- The time step a moment falls in. -/
def stepOf (atMs : Nat) : Int := (atMs / (1000 * TOTP_STEP_S) : Nat)

/-- The last step used is earlier than this one, or there is none. -/
def isLater (lastStep : Option Int) (step : Int) : Bool := lastStep.all fun last => last < step

theorem lt_of_isLater {last step : Int} (later : isLater (some last) step = true) : last < step :=
  of_decide_eq_true (later : decide (last < step) = true)

/-- The step of a typed code: the present one or a neighbour of it, and later than the last one
used. -/
def verifyTotp (hotp : Nat → Int → List Char) (secret : Nat) (code : List Char) (atMs : Nat)
    (lastStep : Option Int) (window : Nat) : Option Int :=
  if looksLikeTotp code then
    ((List.range (2 * window + 1)).map fun delta => stepOf atMs + (delta - window)).find?
      fun step => isLater lastStep step && hotp secret step == typedDigits code
  else none

/-! ### The account -/

/-- What an operation reads of the account. A secret stands for the bytes it was made with. -/
structure User where
  twoFactor : Bool
  totpSecret : Option Nat
  totpLastStep : Option Int
  /-- Whether the password is the owner's own. -/
  passwordSet : Bool
  /-- Whether the role requires the second factor. -/
  required : Bool
  deriving DecidableEq, Repr

structure RecoveryCode where
  id : Nat
  used : Bool
  deriving DecidableEq, Repr

inductive Operation where
  | begin_ | confirm | regenerate | disable | fresh | signIn
  deriving DecidableEq, Repr

/-- Where an operation is: it has read the account, or the statement it names is under way. -/
inductive Job where
  | idle
  | read (operation : Operation) (user : User)
  | beginning
  | claiming (operation : Operation) (secret : Nat) (step : Int)
  | replacing
  | dropped
  | disabled
  | listing (typed : List Char)
  | spending (id : Nat)
  deriving DecidableEq, Repr

/-- The account's rows, the operations on it, what each secret and code was accepted for, the
secret that was confirmed last, and the recovery codes shown last. -/
structure State where
  row : User
  codes : List RecoveryCode
  jobs : Nat → Job
  freshSecret : Nat
  freshCode : Nat
  accepted : List (Nat × Int)
  spent : List Nat
  confirmed : Option Nat
  shown : List Nat

def State.setJob (state : State) (job : Nat) (next : Job) : State :=
  { state with jobs := Function.update state.jobs job next }

/-- An operation reads the account, checks what was typed, has its next statement done, or ends
there: refused on another ground, or because a statement failed. Somebody changes the role or the
password of the account. -/
inductive Event where
  | read (job : Nat) (operation : Operation)
  | check (job : Nat) (clock : Nat) (typed : List Char)
  | write (job : Nat)
  | end_ (job : Nat)
  | become (passwordSet required : Bool)
  deriving DecidableEq, Repr

/-! ### The operations -/

section

variable (hotp : Nat → Int → List Char) (recoveryCodeMatches : List Char → Nat → Bool)

/-- A code is checked against the secret that was read. -/
def checkCode (operation : Operation) (user : User) (clock : Nat) (typed : List Char) : Job :=
  match user.totpSecret with
  | none => .idle
  | some secret =>
    match verifyTotp hotp secret typed clock user.totpLastStep 1 with
    | none => .idle
    | some step => .claiming operation secret step

/-- What an operation goes on with, when it goes on. -/
def check (operation : Operation) (user : User) (clock : Nat) (typed : List Char) : Job :=
  match operation with
  | .begin_ => if user.twoFactor || !user.passwordSet then .idle else .beginning
  | .confirm => if user.twoFactor then .idle else checkCode hotp .confirm user clock typed
  | .regenerate => if user.twoFactor then checkCode hotp .regenerate user clock typed else .idle
  | .disable =>
    if user.required then .idle
    else if user.twoFactor then checkCode hotp .disable user clock typed
    else .idle
  | .fresh => if user.twoFactor then checkCode hotp .fresh user clock typed else .idle
  | .signIn =>
    if user.twoFactor && user.totpSecret.isSome then
      if looksLikeTotp typed then checkCode hotp .signIn user clock typed
      else if (normaliseRecoveryCode typed).length < 8 then .idle
      else .listing (normaliseRecoveryCode typed)
    else .idle

/-- What an operation goes on with once its code is spent. -/
def afterClaim : Operation → Job
  | .confirm | .regenerate => .replacing
  | _ => .idle

/-- The account with a step written down. -/
def claimed (operation : Operation) (step : Int) (row : User) : User :=
  { row with
    totpLastStep := some step
    twoFactor := operation = .confirm || row.twoFactor }

/-- The code that what was typed is, of those not used. -/
def matching (codes : List RecoveryCode) (typed : List Char) : Option RecoveryCode :=
  codes.find? fun code => !code.used && recoveryCodeMatches typed code.id

/-- The codes with this one used. -/
def spend (id : Nat) (code : RecoveryCode) : RecoveryCode :=
  if code.id = id then { code with used := true } else code

/-- How many recovery codes are made at a time. -/
def CODES : Nat := 10

/-- The statement an operation has under way. -/
def write (state : State) (job : Nat) : Option State :=
  match state.jobs job with
  | .beginning =>
    some { (state.setJob job .idle) with
      row := { state.row with totpSecret := some state.freshSecret, totpLastStep := none }
      freshSecret := state.freshSecret + 1 }
  | .claiming .disable secret step =>
    some { (state.setJob job .disabled) with
      row := { state.row with twoFactor := false, totpSecret := none, totpLastStep := none }
      accepted := (secret, step) :: state.accepted
      shown := [] }
  | .claiming operation secret step =>
    if isLater state.row.totpLastStep step then
      some { (state.setJob job (afterClaim operation)) with
        row := claimed operation step state.row
        accepted := (secret, step) :: state.accepted
        confirmed := if operation = .confirm then some secret else state.confirmed }
    else some (state.setJob job .idle)
  | .replacing => some { (state.setJob job .dropped) with codes := [] }
  | .dropped =>
    let made := List.range' state.freshCode CODES
    some { (state.setJob job .idle) with
      codes := state.codes ++ made.map fun id => ⟨id, false⟩
      freshCode := state.freshCode + CODES
      shown := made }
  | .disabled => some { (state.setJob job .idle) with codes := [] }
  | .listing typed =>
    match matching recoveryCodeMatches state.codes typed with
    | some code => some (state.setJob job (.spending code.id))
    | none => some (state.setJob job .idle)
  | .spending id =>
    if state.codes.any fun code => code.id == id && !code.used then
      some { (state.setJob job .idle) with
        codes := state.codes.map (spend id)
        spent := id :: state.spent }
    else some (state.setJob job .idle)
  | .idle | .read _ _ => none

def step (state : State) : Event → Option State
  | .read job operation =>
    match state.jobs job with
    | .idle => some (state.setJob job (.read operation state.row))
    | _ => none
  | .check job clock typed =>
    match state.jobs job with
    | .read operation user => some (state.setJob job (check hotp operation user clock typed))
    | _ => none
  | .write job => write recoveryCodeMatches state job
  | .end_ job =>
    match state.jobs job with
    | .idle => none
    | _ => some (state.setJob job .idle)
  | .become passwordSet required =>
    some { state with
      row := { state.row with passwordSet := passwordSet, required := required } }

end

/-! ### What a step changes -/

/-- A statement of the operation has gone without the next: codes are deleted and not made again,
or the second factor is off and its codes are not deleted. -/
def Job.halfDone : Job → Bool
  | .dropped | .disabled => true
  | _ => false

/-- What a step can do. -/
inductive Change (state : State) : Event → State → Prop
  | moves (event : Event) (job : Nat) (new : Job) (whole : new.halfDone = false)
    (from_ : (state.jobs job).halfDone = false ∨ event = .end_ job) :
    Change state event (state.setJob job new)
  | becomes (passwordSet required : Bool) : Change state (.become passwordSet required)
      { state with row := { state.row with passwordSet := passwordSet, required := required } }
  | begins (job : Nat) (under : state.jobs job = .beginning) : Change state (.write job)
      { (state.setJob job .idle) with
        row := { state.row with totpSecret := some state.freshSecret, totpLastStep := none }
        freshSecret := state.freshSecret + 1 }
  | disables (job secret : Nat) (step : Int)
    (under : state.jobs job = .claiming .disable secret step) : Change state (.write job)
      { (state.setJob job .disabled) with
        row := { state.row with twoFactor := false, totpSecret := none, totpLastStep := none }
        accepted := (secret, step) :: state.accepted
        shown := [] }
  | claims (job : Nat) (operation : Operation) (secret : Nat) (step : Int)
    (under : state.jobs job = .claiming operation secret step) (other : operation ≠ .disable)
    (later : isLater state.row.totpLastStep step = true) : Change state (.write job)
      { (state.setJob job (afterClaim operation)) with
        row := claimed operation step state.row
        accepted := (secret, step) :: state.accepted
        confirmed := if operation = .confirm then some secret else state.confirmed }
  | drops (job : Nat) (under : state.jobs job = .replacing) : Change state (.write job)
      { (state.setJob job .dropped) with codes := [] }
  | creates (job : Nat) (under : state.jobs job = .dropped) : Change state (.write job)
      { (state.setJob job .idle) with
        codes := state.codes ++ (List.range' state.freshCode CODES).map fun id => ⟨id, false⟩
        freshCode := state.freshCode + CODES
        shown := List.range' state.freshCode CODES }
  | clears (job : Nat) (under : state.jobs job = .disabled) : Change state (.write job)
      { (state.setJob job .idle) with codes := [] }
  | spends (job id : Nat) (under : state.jobs job = .spending id)
    (unused : ∃ code ∈ state.codes, code.id = id ∧ code.used = false) : Change state (.write job)
      { (state.setJob job .idle) with
        codes := state.codes.map (spend id)
        spent := id :: state.spent }

section

variable {hotp : Nat → Int → List Char} {recoveryCodeMatches : List Char → Nat → Bool}
  {state next : State}

theorem checkCode_whole (operation : Operation) (user : User) (clock : Nat) (typed : List Char) :
    (checkCode hotp operation user clock typed).halfDone = false := by
  unfold checkCode
  split
  · rfl
  · split
    · rfl
    · rfl

theorem check_whole (operation : Operation) (user : User) (clock : Nat) (typed : List Char) :
    (check hotp operation user clock typed).halfDone = false := by
  have code := fun operation => @checkCode_whole hotp operation user clock typed
  unfold check
  cases operation with
  | begin_ => dsimp only; split <;> rfl
  | confirm | regenerate | fresh => dsimp only; split <;> first | rfl | exact code _
  | disable =>
    dsimp only
    split
    · rfl
    · split
      · exact code _
      · rfl
  | signIn =>
    dsimp only
    split
    · split
      · exact code _
      · split <;> rfl
    · rfl

theorem afterClaim_whole (operation : Operation) : (afterClaim operation).halfDone = false := by
  cases operation <;> rfl

theorem change_of_write {job : Nat} (taken : write recoveryCodeMatches state job = some next) :
    Change state (.write job) next := by
  unfold write at taken
  split at taken
  · rename_i under
    cases taken
    exact .begins job under
  · rename_i secret step under
    cases taken
    exact .disables job secret step under
  · rename_i operation secret step other under
    split at taken
    · rename_i later
      cases taken
      exact .claims job operation secret step under (fun same => other (same ▸ rfl)) later
    · cases taken
      exact .moves _ job .idle rfl (.inl (by rw [under]; rfl))
  · rename_i under
    cases taken
    exact .drops job under
  · rename_i under
    cases taken
    exact .creates job under
  · rename_i under
    cases taken
    exact .clears job under
  · rename_i typed under
    have whole : (state.jobs job).halfDone = false := by rw [under]; rfl
    split at taken
    · cases taken
      exact .moves _ job (.spending _) rfl (.inl whole)
    · cases taken
      exact .moves _ job .idle rfl (.inl whole)
  · rename_i id under
    split at taken
    · rename_i unused
      cases taken
      refine .spends job id under ?_
      obtain ⟨code, member, both⟩ := List.any_eq_true.mp unused
      obtain ⟨same, fresh⟩ := Bool.and_eq_true_iff.mp both
      rw [Bool.not_eq_true'] at fresh
      exact ⟨code, member, beq_iff_eq.mp same, fresh⟩
    · cases taken
      exact .moves _ job .idle rfl (.inl (by rw [under]; rfl))
  · cases taken
  · cases taken

theorem change_of_step {event : Event}
    (taken : step hotp recoveryCodeMatches state event = some next) : Change state event next := by
  unfold step at taken
  cases event with
  | read job operation =>
    dsimp only at taken
    split at taken
    · rename_i under
      cases taken
      exact .moves _ job _ rfl (.inl (by rw [under]; rfl))
    · cases taken
  | check job clock typed =>
    dsimp only at taken
    split at taken
    · rename_i operation user under
      cases taken
      exact .moves _ job _ (check_whole operation user clock typed) (.inl (by rw [under]; rfl))
    · cases taken
  | write job => exact change_of_write taken
  | end_ job =>
    dsimp only at taken
    split at taken
    · cases taken
    · cases taken
      exact .moves _ job .idle rfl (.inr rfl)
  | become passwordSet required =>
    cases taken
    exact .becomes passwordSet required

end

/-! ### An account at rest -/

/-- The recovery codes that still work. -/
def State.live (state : State) : List Nat :=
  (state.codes.filter fun code => !code.used).map RecoveryCode.id

/-- An account that no operation is working on. What is in force was confirmed, the codes that work
are those shown and not spent, and the secrets and codes still to come are new. -/
structure Rests (state : State) : Prop where
  jobs : ∀ job, state.jobs job = .idle
  accepted : state.accepted = []
  secret : ∀ secret, state.row.totpSecret = some secret → secret < state.freshSecret
  codes : ∀ code ∈ state.codes, code.id < state.freshCode
  used : ∀ code ∈ state.codes, code.used = true ↔ code.id ∈ state.spent
  spent : state.spent.Nodup
  old : ∀ id ∈ state.spent, id < state.freshCode
  confirmed : state.row.twoFactor = true →
    ∃ secret, state.row.totpSecret = some secret ∧ state.confirmed = some secret
  shown : ∀ id, id ∈ state.live ↔ id ∈ state.shown ∧ id ∉ state.spent

end Geeboard.Access
