/-
This file is the change of the key that the panel seals its secrets with.

Every sealed value of nine columns is read, opened with the present key and sealed
with the new one, and all of them are written in one transaction, each only over the
value that was read. A value that changed meanwhile undoes the transaction. One that
was not there when its column was read is not noticed, and stays sealed with the key
that is put away.
-/

import Geeboard.Systems.Steps
import Geeboard.Text.Lines
import Mathlib.Data.List.Dedup
import Mathlib.Data.List.Nodup

namespace Geeboard.Secrets

open List Option Function

/-! ### Keys -/

/-- The words one after the other, with at most one sign between two of them. -/
def startsWithWords : List (List Char) → List Char → Bool
  | [], _ => true
  | word :: rest, text =>
    let after := text.drop word.length
    word.isPrefixOf text &&
      (startsWithWords rest after ||
        (after.head?.any (['-', '_', ' '].contains ·) && startsWithWords rest after.tail))

/-- What reads like an instruction and not like a secret. -/
def PLACEHOLDER : List (List String) :=
  [["generate"], ["change", "me"], ["example"], ["placeholder"], ["your", "secret"], ["openssl"],
    ["xxxx"], ["secret", "key", "here"]]

def isPlaceholder (value : String) : Bool :=
  (value.toList.map Char.toLower).tails.any fun text =>
    PLACEHOLDER.any fun words => startsWithWords (words.map String.toList) text

def SECRET_MIN : Nat := 32

/-- Whether a value cannot be a secret: not set, short, a placeholder, or of few characters. -/
def secretProblem : Option String → Bool
  | none => true
  | some value =>
    Text.utf16Length value.toList < SECRET_MIN || isPlaceholder value || value.toList.dedup.length < 10

/-- How values are sealed and opened. A sealing is random, which the number stands for. -/
structure Cipher where
  sealWith : String → Nat → String → String
  openWith : String → String → Option String

/-- Opening a value sealed with the same key returns it. -/
def Cipher.Opens (cipher : Cipher) : Prop :=
  ∀ key random plain, cipher.openWith key (cipher.sealWith key random plain) = some plain

/-- A wrong key is refused. -/
def Cipher.Refuses (cipher : Cipher) : Prop :=
  ∀ key other random plain, key ≠ other →
    cipher.openWith other (cipher.sealWith key random plain) = none

/-! ### The sealed columns -/

inductive Column where
  | daemonToken | totpSecret | secretAccessKey | apiKey | token | endpoint | url | signingSecret
  | secretSettings
  deriving DecidableEq, Repr

def SEALED_COLUMNS : List Column :=
  [.daemonToken, .totpSecret, .secretAccessKey, .apiKey, .token, .endpoint, .url, .signingSecret,
    .secretSettings]

/-- A sealed value that is there, and the row it is of. -/
structure Value where
  column : Column
  id : Nat
  stored : String
  deriving DecidableEq, Repr

def Value.cell (value : Value) : Column × Nat := (value.column, value.id)

/-- A value that was opened, and what it was sealed to again. -/
structure Again where
  value : Value
  plain : String
  to_ : String
  deriving DecidableEq, Repr

/-- The update of one value, where it is still what was read: there is one such row, or none. -/
def rewrite (values : List Value) (again : Again) : Option (List Value) :=
  if values.countP (fun value => value = again.value) = 1 then
    some (values.map fun value =>
      if value = again.value then { value with stored := again.to_ } else value)
  else none

/-- The transaction. One value that changed undoes it. -/
def rewriteAll : List Value → List Again → Option (List Value)
  | values, [] => some values
  | values, again :: rest => (rewrite values again).bind fun values => rewriteAll values rest

/-! ### The operation -/

structure Input where
  currentKey : Option String
  newKey : Option String
  sessionSecret : Option String
  dryRun : Bool
  deriving DecidableEq, Repr

/-- The keys, where the operation goes on with them. -/
def keysOf (input : Input) : Option (String × String) :=
  match input.currentKey, input.newKey with
  | some current, some new =>
    if Text.utf16Length current.toList < 32 || secretProblem (some new) || new = current ||
        some new = input.sessionSecret then
      none
    else some (current, new)
  | _, _ => none

/-- What the operation says in the end: that it refused to begin or to go on, that a value changed,
how many values of each column it sealed or would have, or an error of another kind. -/
inductive Outcome where
  | refused | unreadable | notAgain | changed | counted (counts : List (Column × Nat)) | thrown
  deriving DecidableEq, Repr

def countsOf (values : List Value) : List (Column × Nat) :=
  SEALED_COLUMNS.map fun column => (column, values.countP fun value => value.column = column)

/-- How far the operation is: columns to be read and values found, all sealed again, the
transaction done, or ended. -/
inductive Phase where
  | reading (left : List Column) (found : List Value)
  | ready (agains : List Again)
  | written (outcome : Outcome)
  | ended (outcome : Outcome)
  deriving DecidableEq, Repr

/-- The values, those there would be without the operation, what each is meant to hold, and whether
the operation has changed any. -/
structure State where
  values : List Value
  others : List Value
  meant : Column × Nat → Option String
  phase : Phase
  fresh : Nat
  changed : Bool

/-- The operation reads a column, seals what it found, has its transaction done or undone, answers
or fails; somebody else writes a value, sealed with the present key, or removes one. -/
inductive Event where
  | load (column : Column)
  | sealAgain
  | commit (answered : Bool)
  | answer
  | fail
  | put (column : Column) (id : Nat) (plain : String)
  | remove (column : Column) (id : Nat)
  deriving DecidableEq, Repr

section

variable (cipher : Cipher) (current new : String) (dryRun : Bool)

/-- The values opened with the present key, if all of them open. -/
def openAll : List Value → Option (List (Value × String))
  | [] => some []
  | value :: rest =>
    (cipher.openWith current value.stored).bind fun plain =>
      (openAll rest).map fun opened => (value, plain) :: opened

/-- The values sealed with the new key. -/
def sealAll (fresh : Nat) : List (Value × String) → List Again
  | [] => []
  | (value, plain) :: rest =>
    ⟨value, plain, cipher.sealWith new fresh plain⟩ :: sealAll (fresh + 1) rest

/-- What is done between the last read and the transaction. -/
def prepare (found : List Value) (fresh : Nat) : Phase :=
  match openAll cipher current found with
  | none => .ended .unreadable
  | some opened =>
    let agains := sealAll cipher new fresh opened
    if agains.all fun again => cipher.openWith new again.to_ = some again.plain then
      if dryRun then .ended (.counted (countsOf found)) else .ready agains
    else .ended .notAgain

def putValue (values : List Value) (value : Value) : List Value :=
  value :: values.filter fun other => other.cell ≠ value.cell

def removeValue (values : List Value) (cell : Column × Nat) : List Value :=
  values.filter fun other => other.cell ≠ cell

def step (state : State) : Event → Option State
  | .load column =>
    match state.phase with
    | .reading left found =>
      if left.contains column then
        some { state with
          phase := .reading (left.erase column)
            (found ++ state.values.filter fun value => value.column = column) }
      else none
    | _ => none
  | .sealAgain =>
    match state.phase with
    | .reading [] found =>
      some { state with
        phase := prepare cipher current new dryRun found state.fresh
        fresh := state.fresh + found.length }
    | _ => none
  | .commit answered =>
    match state.phase with
    | .ready agains =>
      match rewriteAll state.values agains with
      | some values =>
        some { state with
          values := values
          phase := .written
            (if answered then .counted (countsOf (agains.map Again.value)) else .thrown)
          changed := !agains.isEmpty }
      | none => some { state with phase := .ended .changed }
    | _ => none
  | .answer =>
    match state.phase with
    | .written outcome => some { state with phase := .ended outcome }
    | _ => none
  | .fail =>
    match state.phase with
    | .reading _ _ | .ready _ => some { state with phase := .ended .thrown }
    | _ => none
  | .put column id plain =>
    match state.phase with
    | .ended _ => none
    | _ =>
      let value := ⟨column, id, cipher.sealWith current state.fresh plain⟩
      some { state with
        values := putValue state.values value
        others := putValue state.others value
        meant := Function.update state.meant (column, id) (some plain)
        fresh := state.fresh + 1 }
  | .remove column id =>
    match state.phase with
    | .ended _ => none
    | _ =>
      some { state with
        values := removeValue state.values (column, id)
        others := removeValue state.others (column, id)
        meant := Function.update state.meant (column, id) none }

/-- What the values of the columns are meant to hold: what they open to. -/
def meantBy (values : List Value) (cell : Column × Nat) : Option String :=
  (values.find? fun value => value.cell = cell).bind fun value =>
    cipher.openWith current value.stored

end

/-- The operation as it begins, on these values. -/
def beginning (cipher : Cipher) (values : List Value) (current : String) : State :=
  ⟨values, values, meantBy cipher current values, .reading SEALED_COLUMNS [], 0, false⟩

/-! ### What is to hold, and when it does -/

/-- Every sealed value opens with the new key to what it is meant to hold. -/
def AllNew (cipher : Cipher) (new : String) (state : State) : Prop :=
  ∀ value ∈ state.values, ∃ plain, state.meant value.cell = some plain ∧
    cipher.openWith new value.stored = some plain

/-- No sealed value was changed, or all open with the new key. -/
def AllOrNothing (cipher : Cipher) (new : String) (state : State) : Prop :=
  (state.changed = false ∧ state.values = state.others) ∨ AllNew cipher new state

/-- When the values that were read are written, every value that is there is one of a row that was
read; and no value is written between that and the answer. -/
def NothingMissed (state : State) : Event → Prop
  | .commit _ =>
    match state.phase with
    | .ready agains =>
      agains ≠ [] → (∀ again ∈ agains, again.value ∈ state.values) →
        ∀ value ∈ state.values, ∃ again ∈ agains, again.value.cell = value.cell
    | _ => True
  | .put _ _ _ =>
    match state.phase with
    | .written _ => state.changed = false
    | _ => True
  | _ => True

/-! ### The transaction -/

section

variable {values later : List Value}

theorem eq_of_cell (cells : (values.map Value.cell).Nodup) {value other : Value}
    (member : value ∈ values) (inside : other ∈ values) (same : value.cell = other.cell) :
    value = other :=
  inj_on_of_nodup_map cells member inside same

/-- The value sealed again. -/
def resealed (again : Again) (value : Value) : Value :=
  if value = again.value then { value with stored := again.to_ } else value

theorem resealed_cell (again : Again) (value : Value) : (resealed again value).cell = value.cell := by
  unfold resealed
  split <;> rfl

theorem resealed_other {again : Again} {value : Value} (other : again.value.cell ≠ value.cell) :
    resealed again value = value := by
  refine if_neg fun same => other ?_
  rw [same]

theorem rewrite_eq (cells : (values.map Value.cell).Nodup) (again : Again) :
    rewrite values again =
      if again.value ∈ values then some (values.map (resealed again)) else none := by
  have once : values.countP (fun value => value = again.value) = values.count again.value := by
    unfold List.count
    refine countP_congr fun value _ => ?_
    rw [decide_eq_true_eq, beq_iff_eq]
  unfold rewrite
  rw [once]
  by_cases there : again.value ∈ values
  · rw [if_pos (count_eq_one_of_mem cells.of_map there), if_pos there]
    rfl
  · rw [if_neg (by rw [count_eq_zero.mpr there]; decide), if_neg there]

theorem map_resealed_cells (again : Again) (values : List Value) :
    (values.map (resealed again)).map Value.cell = values.map Value.cell := by
  rw [List.map_map]
  exact map_congr_left fun value _ => resealed_cell again value

theorem mem_resealed {again other : Again} (different : again.value.cell ≠ other.value.cell) :
    other.value ∈ values.map (resealed again) ↔ other.value ∈ values := by
  constructor
  · intro member
    obtain ⟨value, inside, same⟩ := List.mem_map.mp member
    have cell : value.cell = other.value.cell := by rw [← same, resealed_cell]
    rw [resealed_other fun is => different (is.trans cell)] at same
    rwa [← same]
  · intro inside
    exact List.mem_map.mpr ⟨other.value, inside, resealed_other different⟩

/-- The values, each sealed again where it was read. -/
def resealedBy (agains : List Again) (value : Value) : Value :=
  agains.foldl (fun value again => resealed again value) value

/-- The transaction writes all that was read where nothing of it has changed, and nothing
otherwise. -/
theorem rewriteAll_eq {agains : List Again} (cells : (values.map Value.cell).Nodup)
    (own : (agains.map fun again => again.value.cell).Nodup) :
    rewriteAll values agains =
      if ∀ again ∈ agains, again.value ∈ values then some (values.map (resealedBy agains))
      else none := by
  induction agains generalizing values with
  | nil =>
    unfold rewriteAll
    rw [if_pos fun again member => absurd member not_mem_nil]
    exact congrArg some (map_id'' (fun _ => rfl) values).symm
  | cons again rest inductionHypothesis =>
    obtain ⟨fresh, rests⟩ := nodup_cons.mp own
    have different : ∀ other ∈ rest, again.value.cell ≠ other.value.cell :=
      fun other member same => fresh (List.mem_map.mpr ⟨other, member, same.symm⟩)
    unfold rewriteAll
    rw [rewrite_eq cells]
    by_cases there : again.value ∈ values
    · rw [if_pos there, bind_some]
      have next := @inductionHypothesis (values.map (resealed again))
        (by rw [map_resealed_cells]; exact cells) rests
      rw [next, List.map_map]
      refine ite_congr (propext ?_) (fun _ => rfl) fun _ => rfl
      rw [forall_mem_cons, and_iff_right there]
      exact forall₂_congr fun other member => mem_resealed (different other member)
    · have missing : ¬ ∀ other ∈ again :: rest, other.value ∈ values :=
        fun all => there (all again mem_cons_self)
      rw [if_neg there, if_neg missing]
      rfl

theorem resealedBy_other {agains : List Again} {value : Value}
    (other : ∀ again ∈ agains, again.value.cell ≠ value.cell) : resealedBy agains value = value := by
  induction agains with
  | nil => rfl
  | cons again rest inductionHypothesis =>
    obtain ⟨here, there⟩ := forall_mem_cons.mp other
    unfold resealedBy at inductionHypothesis ⊢
    rw [foldl_cons, resealed_other here]
    exact inductionHypothesis there

/-- What was read is what it was sealed to. -/
theorem resealedBy_own {agains : List Again} {again : Again}
    (own : (agains.map fun again => again.value.cell).Nodup) (member : again ∈ agains) :
    resealedBy agains again.value = { again.value with stored := again.to_ } := by
  induction agains with
  | nil => cases member
  | cons first rest inductionHypothesis =>
    obtain ⟨fresh, rests⟩ := nodup_cons.mp own
    rcases mem_cons.mp member with rfl | later
    · have here : resealed again again.value = { again.value with stored := again.to_ } := if_pos rfl
      unfold resealedBy
      rw [foldl_cons, here]
      refine resealedBy_other fun other inside same => fresh ?_
      exact List.mem_map.mpr ⟨other, inside, same⟩
    · have different : first.value.cell ≠ again.value.cell :=
        fun same => fresh (List.mem_map.mpr ⟨again, later, same.symm⟩)
      have next := inductionHypothesis rests later
      unfold resealedBy at next ⊢
      rw [foldl_cons, resealed_other different]
      exact next

end

/-! ### What the operation has in hand -/

section

variable {cipher : Cipher} {current new : String} {dryRun : Bool}

theorem openAll_spec {found : List Value} {opened : List (Value × String)}
    (opens : openAll cipher current found = some opened) :
    opened.map Prod.fst = found ∧
      ∀ pair ∈ opened, cipher.openWith current pair.1.stored = some pair.2 := by
  induction found generalizing opened with
  | nil =>
    cases opens
    exact ⟨rfl, fun pair member => absurd member not_mem_nil⟩
  | cons value rest inductionHypothesis =>
    obtain ⟨plain, is, opens⟩ := bind_eq_some_iff.mp opens
    obtain ⟨later, opensRest, rfl⟩ := map_eq_some_iff.mp opens
    obtain ⟨same, each⟩ := inductionHypothesis opensRest
    exact ⟨congrArg (value :: ·) same, forall_mem_cons.mpr ⟨is, each⟩⟩

theorem sealAll_values (fresh : Nat) (opened : List (Value × String)) :
    (sealAll cipher new fresh opened).map Again.value = opened.map Prod.fst := by
  induction opened generalizing fresh with
  | nil => rfl
  | cons pair rest inductionHypothesis =>
    exact congrArg (pair.1 :: ·) (inductionHypothesis (fresh + 1))

theorem mem_sealAll {fresh : Nat} {opened : List (Value × String)} {again : Again}
    (member : again ∈ sealAll cipher new fresh opened) : (again.value, again.plain) ∈ opened := by
  induction opened generalizing fresh with
  | nil => cases member
  | cons pair rest inductionHypothesis =>
    rcases mem_cons.mp member with rfl | later
    · exact mem_cons_self
    · exact mem_cons_of_mem _ (inductionHypothesis later)

/-- What is ready to be written: all that was found, opened with the present key, and sealed so that
it opens with the new one. -/
theorem prepare_ready {found : List Value} {fresh : Nat} {agains : List Again}
    (ready : prepare cipher current new dryRun found fresh = .ready agains) :
    agains.map Again.value = found ∧ ∀ again ∈ agains,
      cipher.openWith current again.value.stored = some again.plain ∧
        cipher.openWith new again.to_ = some again.plain := by
  unfold prepare at ready
  split at ready
  · cases ready
  · rename_i opened opens
    obtain ⟨same, each⟩ := openAll_spec opens
    dsimp only at ready
    split at ready
    · rename_i opensAgain
      split at ready
      · cases ready
      · obtain rfl := Phase.ready.inj ready
        refine ⟨(sealAll_values fresh opened).trans same, fun again member => ?_⟩
        exact ⟨each _ (mem_sealAll member),
          of_decide_eq_true (List.all_eq_true.mp opensAgain again member)⟩
    · cases ready

theorem prepare_cases (found : List Value) (fresh : Nat) :
    (∃ agains, prepare cipher current new dryRun found fresh = .ready agains) ∨
      ∃ outcome, prepare cipher current new dryRun found fresh = .ended outcome := by
  unfold prepare
  split
  · exact .inr ⟨_, rfl⟩
  · dsimp only
    split
    · split
      · exact .inr ⟨_, rfl⟩
      · exact .inl ⟨_, rfl⟩
    · exact .inr ⟨_, rfl⟩

/-! ### Every run -/

/-- A value that was sealed with the present key. -/
def Present (cipher : Cipher) (current : String) (value : Value) : Prop :=
  ∃ random plain, value.stored = cipher.sealWith current random plain

/-- What has been read is all there was; what has come since is sealed with the present key. -/
def Phase.Fits (cipher : Cipher) (current new : String) (values : List Value) : Phase → Prop
  | .reading left found => left.Nodup ∧ (found.map Value.cell).Nodup ∧
      (∀ value ∈ found, value.column ∉ left) ∧
        ∀ value ∈ values, value.column ∈ left ∨ value ∈ found ∨ Present cipher current value
  | .ready agains => (agains.map fun again => again.value.cell).Nodup ∧
      (∀ again ∈ agains, cipher.openWith current again.value.stored = some again.plain ∧
        cipher.openWith new again.to_ = some again.plain) ∧
        ∀ value ∈ values, value ∈ agains.map Again.value ∨ Present cipher current value
  | _ => True

/-- The transaction is still to come. -/
def Phase.isOpen : Phase → Bool
  | .reading _ _ | .ready _ => true
  | _ => false

/-- Before the transaction the values are those of the others, and mean what they open to with the
present key. -/
structure Kept (cipher : Cipher) (current new : String) (state : State) : Prop where
  cells : (state.values.map Value.cell).Nodup
  untouched : state.changed = false → state.values = state.others
  meant : state.changed = false → ∀ value ∈ state.values, ∀ plain,
    cipher.openWith current value.stored = some plain → state.meant value.cell = some plain
  before : state.phase.isOpen = true → state.changed = false
  phase : state.phase.Fits cipher current new state.values

theorem removeValue_cells {values : List Value} (cells : (values.map Value.cell).Nodup)
    (cell : Column × Nat) : ((removeValue values cell).map Value.cell).Nodup :=
  cells.sublist (filter_sublist.map _)

theorem mem_removeValue {values : List Value} {cell : Column × Nat} {value : Value} :
    value ∈ removeValue values cell ↔ value ∈ values ∧ value.cell ≠ cell := by
  unfold removeValue
  rw [mem_filter, decide_eq_true_eq]

theorem putValue_cells {values : List Value} (cells : (values.map Value.cell).Nodup)
    (value : Value) : ((putValue values value).map Value.cell).Nodup := by
  refine nodup_cons.mpr ⟨fun member => ?_, removeValue_cells cells value.cell⟩
  obtain ⟨other, inside, same⟩ := List.mem_map.mp member
  exact (mem_removeValue.mp inside).2 same

theorem Phase.Fits.fewer {values later : List Value} {phase : Phase}
    (fits : phase.Fits cipher current new values)
    (from_ : ∀ value ∈ later, value ∈ values ∨ Present cipher current value) :
    phase.Fits cipher current new later := by
  cases phase with
  | reading left found =>
    refine ⟨fits.1, fits.2.1, fits.2.2.1, fun value member => ?_⟩
    rcases from_ value member with before | present
    · exact fits.2.2.2 value before
    · exact .inr (.inr present)
  | ready agains =>
    refine ⟨fits.1, fits.2.1, fun value member => ?_⟩
    rcases from_ value member with before | present
    · exact fits.2.2 value before
    · exact .inr present
  | written | ended => trivial

variable {state next : State}

/-- A step that leaves the values: the operation moves on with what it has. -/
theorem Kept.moves (kept : Kept cipher current new state) {phase : Phase} {fresh : Nat}
    (fits : phase.Fits cipher current new state.values)
    (before : phase.isOpen = true → state.changed = false) :
    Kept cipher current new { state with phase := phase, fresh := fresh } :=
  ⟨kept.cells, kept.untouched, kept.meant, before, fits⟩

theorem Kept.put (kept : Kept cipher current new state) (opens : cipher.Opens) (column : Column)
    (id : Nat) (plain : String) :
    Kept cipher current new { state with
      values := putValue state.values
        ⟨column, id, cipher.sealWith current state.fresh plain⟩
      others := putValue state.others
        ⟨column, id, cipher.sealWith current state.fresh plain⟩
      meant := Function.update state.meant (column, id) (some plain)
      fresh := state.fresh + 1 } := by
  refine ⟨putValue_cells kept.cells _, fun unchanged => ?_, fun unchanged => ?_, kept.before, ?_⟩
  · dsimp only
    rw [kept.untouched unchanged]
  · refine forall_mem_cons.mpr ⟨fun other is => ?_, fun value member other is => ?_⟩
    · dsimp only at is ⊢
      rw [opens] at is
      rw [← is]
      exact update_self _ _ _
    · obtain ⟨inside, different⟩ := mem_removeValue.mp member
      exact (update_of_ne different _ _).trans
        (kept.meant unchanged value inside other is)
  · refine kept.phase.fewer fun value member => ?_
    rcases mem_cons.mp member with rfl | later
    · exact .inr ⟨state.fresh, plain, rfl⟩
    · exact .inl (mem_removeValue.mp later).1

theorem Kept.remove (kept : Kept cipher current new state) (cell : Column × Nat) :
    Kept cipher current new { state with
      values := removeValue state.values cell
      others := removeValue state.others cell
      meant := Function.update state.meant cell none } := by
  refine ⟨removeValue_cells kept.cells cell, fun unchanged => ?_,
    fun unchanged value member other is => ?_, kept.before, ?_⟩
  · dsimp only
    rw [kept.untouched unchanged]
  · obtain ⟨inside, different⟩ := mem_removeValue.mp member
    dsimp only
    rw [update_of_ne different]
    exact kept.meant unchanged value inside other is
  · exact kept.phase.fewer fun value member => .inl (mem_removeValue.mp member).1

theorem resealedBy_cell (agains : List Again) (value : Value) :
    (resealedBy agains value).cell = value.cell := by
  unfold resealedBy
  induction agains generalizing value with
  | nil => rfl
  | cons again rest inductionHypothesis =>
    exact (inductionHypothesis (resealed again value)).trans (resealed_cell again value)

theorem resealedBy_cells (agains : List Again) (values : List Value) :
    (values.map (resealedBy agains)).map Value.cell = values.map Value.cell := by
  rw [List.map_map]
  refine map_congr_left fun value _ => ?_
  exact resealedBy_cell agains value

theorem load_fits (kept : Kept cipher current new state) {column : Column} {left : List Column}
    {found : List Value} (under : state.phase = .reading left found) (member : column ∈ left) :
    (Phase.reading (left.erase column)
      (found ++ state.values.filter fun value => value.column = column)).Fits cipher current new
        state.values := by
  have fits := kept.phase
  rw [under] at fits
  obtain ⟨columns, cells, apart, all⟩ := fits
  have mine : ∀ value, value ∈ state.values.filter (fun value => value.column = column) ↔
      value ∈ state.values ∧ value.column = column := by
    intro value
    rw [mem_filter, decide_eq_true_eq]
  refine ⟨columns.erase column, ?_, ?_, fun value inside => ?_⟩
  · rw [map_append, nodup_append]
    refine ⟨cells, kept.cells.sublist (filter_sublist.map _), ?_⟩
    rintro cell first other second rfl
    obtain ⟨value, inFound, rfl⟩ := List.mem_map.mp first
    obtain ⟨past, inside, same⟩ := List.mem_map.mp second
    have own : past.column = value.column := (Prod.mk.inj same).1
    rw [((mine past).mp inside).2] at own
    exact apart value inFound (own ▸ member)
  · refine forall_mem_append.mpr ⟨fun value inFound again => ?_, fun value inside again => ?_⟩
    · exact apart value inFound (mem_of_mem_erase again)
    · rw [((mine value).mp inside).2] at again
      exact columns.not_mem_erase again
  · rcases all value inside with open_ | read | present
    · by_cases own : value.column = column
      · exact .inr (.inl (mem_append_right _ ((mine value).mpr ⟨inside, own⟩)))
      · exact .inl ((mem_erase_of_ne own).mpr open_)
    · exact .inr (.inl (mem_append_left _ read))
    · exact .inr (.inr present)

theorem prepare_fits (kept : Kept cipher current new state) {found : List Value}
    (under : state.phase = .reading [] found) :
    (prepare cipher current new dryRun found state.fresh).Fits cipher current new state.values := by
  have fits := kept.phase
  rw [under] at fits
  obtain ⟨-, cells, -, all⟩ := fits
  rcases prepare_cases found state.fresh with ⟨agains, ready⟩ | ⟨outcome, ended⟩
  · obtain ⟨same, each⟩ := prepare_ready ready
    rw [ready]
    refine ⟨?_, each, fun value inside => ?_⟩
    · have cellsOf : agains.map (fun again => again.value.cell) =
          (agains.map Again.value).map Value.cell := by
        rw [List.map_map]
        rfl
      rw [cellsOf, same]
      exact cells
    · rw [same]
      exact (all value inside).resolve_left not_mem_nil
  · rw [ended]
    trivial

theorem kept_step {event : Event} (kept : Kept cipher current new state) (opens : cipher.Opens)
    (taken : step cipher current new dryRun state event = some next) :
    Kept cipher current new next := by
  unfold step at taken
  cases event with
  | load column =>
    dsimp only at taken
    split at taken
    · rename_i left found under
      split at taken
      · rename_i member
        cases taken
        refine kept.moves (load_fits kept under (contains_iff_mem.mp member)) fun _ => ?_
        exact kept.before (by rw [under]; rfl)
      · cases taken
    · cases taken
  | sealAgain =>
    dsimp only at taken
    split at taken
    · rename_i found under
      cases taken
      refine kept.moves (prepare_fits kept under) fun _ => ?_
      exact kept.before (by rw [under]; rfl)
    · cases taken
  | commit answered =>
    dsimp only at taken
    split at taken
    · rename_i agains under
      split at taken
      · rename_i values wrote
        have fits := kept.phase
        rw [under] at fits
        have unchanged := kept.before (by rw [under]; rfl)
        rw [rewriteAll_eq kept.cells fits.1] at wrote
        obtain ⟨-, same⟩ := ite_none_right_eq_some.mp wrote
        obtain rfl := some.inj same
        have empty : agains.isEmpty = true →
            state.values.map (resealedBy agains) = state.values := by
          intro none_
          rw [List.isEmpty_iff.mp none_]
          exact map_id'' (fun _ => rfl) _
        have none_ : (!agains.isEmpty) = false → agains.isEmpty = true := by
          intro still
          rwa [Bool.not_eq_false'] at still
        cases taken
        refine ⟨?_, fun still => ?_, fun still => ?_, ?_, trivial⟩
        · dsimp only
          rw [resealedBy_cells]
          exact kept.cells
        · exact (empty (none_ still)).trans (kept.untouched unchanged)
        · dsimp only
          rw [empty (none_ still)]
          exact kept.meant unchanged
        · rintro ⟨⟩
      · cases taken
        exact kept.moves trivial nofun
    · cases taken
  | answer =>
    dsimp only at taken
    split at taken
    · cases taken
      exact kept.moves trivial nofun
    · cases taken
  | fail =>
    dsimp only at taken
    split at taken
    · cases taken
      exact kept.moves trivial nofun
    · cases taken
      exact kept.moves trivial nofun
    · cases taken
  | put column id plain =>
    dsimp only at taken
    split at taken
    · cases taken
    · cases taken
      exact kept.put opens column id plain
  | remove column id =>
    dsimp only at taken
    split at taken
    · cases taken
    · cases taken
      exact kept.remove (column, id)

/-- A step that changes no value, and nothing about what is changed and meant. -/
theorem allOrNothing_same (values : next.values = state.values) (others : next.others = state.others)
    (meant : next.meant = state.meant) (changed : next.changed = state.changed)
    (holds : AllOrNothing cipher new state) : AllOrNothing cipher new next := by
  unfold AllOrNothing AllNew
  rw [values, others, meant, changed]
  exact holds

/-- After the transaction everything opens with the new key just when every value that is there was
read. -/
theorem allNew_resealed (refuses : cipher.Refuses) (different : current ≠ new)
    (kept : Kept cipher current new state) {agains : List Again}
    (under : state.phase = .ready agains)
    (there : ∀ again ∈ agains, again.value ∈ state.values) :
    (∀ value ∈ state.values.map (resealedBy agains), ∃ plain,
        state.meant value.cell = some plain ∧ cipher.openWith new value.stored = some plain) ↔
      ∀ value ∈ state.values, ∃ again ∈ agains, again.value.cell = value.cell := by
  have fits := kept.phase
  rw [under] at fits
  obtain ⟨own, each, all⟩ := fits
  have unchanged := kept.before (by rw [under]; rfl)
  rw [List.forall_mem_map]
  refine forall₂_congr fun value member => ?_
  rw [resealedBy_cell]
  constructor
  · rintro ⟨plain, -, opensNew⟩
    by_contra missed
    have apart : ∀ again ∈ agains, again.value.cell ≠ value.cell :=
      fun again inside same => missed ⟨again, inside, same⟩
    rw [resealedBy_other apart] at opensNew
    rcases all value member with read | ⟨random, present, stored⟩
    · obtain ⟨again, inside, rfl⟩ := List.mem_map.mp read
      exact apart again inside rfl
    · rw [stored, refuses _ _ _ _ different] at opensNew
      cases opensNew
  · rintro ⟨again, inside, same⟩
    obtain rfl := eq_of_cell kept.cells (there again inside) member same
    obtain ⟨before, after⟩ := each again inside
    refine ⟨again.plain, kept.meant unchanged _ member _ before, ?_⟩
    rw [resealedBy_own own inside]
    exact after

theorem allOrNothing_step {event : Event} (refuses : cipher.Refuses)
    (different : current ≠ new) (kept : Kept cipher current new state)
    (holds : AllOrNothing cipher new state)
    (taken : step cipher current new dryRun state event = some next) :
    AllOrNothing cipher new next ↔ NothingMissed state event := by
  unfold step at taken
  unfold NothingMissed
  cases event with
  | load column =>
    dsimp only at taken
    split at taken
    · split at taken
      · cases taken
        exact iff_of_true (allOrNothing_same rfl rfl rfl rfl holds) trivial
      · cases taken
    · cases taken
  | sealAgain | answer =>
    dsimp only at taken
    split at taken
    · cases taken
      exact iff_of_true (allOrNothing_same rfl rfl rfl rfl holds) trivial
    · cases taken
  | fail =>
    dsimp only at taken
    split at taken
    · cases taken
      exact iff_of_true (allOrNothing_same rfl rfl rfl rfl holds) trivial
    · cases taken
      exact iff_of_true (allOrNothing_same rfl rfl rfl rfl holds) trivial
    · cases taken
  | commit answered =>
    dsimp only at taken ⊢
    split at taken
    · rename_i agains under
      have fits := kept.phase
      rw [under] at fits
      have unchanged := kept.before (by rw [under]; rfl)
      rw [rewriteAll_eq kept.cells fits.1] at taken
      by_cases there : ∀ again ∈ agains, again.value ∈ state.values
      · rw [if_pos there] at taken
        cases taken
        by_cases none_ : agains = []
        · refine iff_of_true (.inl ⟨by rw [none_]; rfl, ?_⟩) fun some_ => absurd none_ some_
          rw [← kept.untouched unchanged, none_]
          exact map_id'' (fun _ => rfl) _
        · have exactly := allNew_resealed refuses different kept under there
          constructor
          · rintro (⟨still, -⟩ | all) - -
            · rw [Bool.not_eq_false'] at still
              exact absurd (List.isEmpty_iff.mp still) none_
            · exact exactly.mp all
          · exact fun read => .inr (exactly.mpr (read none_ there))
      · rw [if_neg there] at taken
        cases taken
        exact iff_of_true (allOrNothing_same rfl rfl rfl rfl holds) fun _ all => absurd all there
    · cases taken
  | put column id plain =>
    dsimp only at taken ⊢
    split at taken
    · cases taken
    · rename_i notEnded
      have wrote : next.changed = state.changed ∧
          (state.changed = false → next.values = next.others) ∧
          ⟨column, id, cipher.sealWith current state.fresh plain⟩ ∈ next.values := by
        cases taken
        refine ⟨rfl, fun unchanged => ?_, mem_cons_self⟩
        dsimp only
        rw [kept.untouched unchanged]
      obtain ⟨changed, still, member⟩ := wrote
      have exactly : AllOrNothing cipher new next ↔ state.changed = false := by
        constructor
        · rintro (⟨unchanged, -⟩ | all)
          · rw [← changed]
            exact unchanged
          · obtain ⟨other, -, opensNew⟩ := all _ member
            rw [refuses _ _ _ _ different] at opensNew
            cases opensNew
        · exact fun unchanged => .inl ⟨changed.trans unchanged, still unchanged⟩
      split
      · exact exactly
      · rename_i notWritten
        refine iff_of_true (exactly.mpr (kept.before ?_)) trivial
        cases phase : state.phase with
        | reading | ready => rfl
        | written outcome => exact absurd phase (notWritten outcome)
        | ended outcome => exact absurd phase (notEnded outcome)
  | remove column id =>
    dsimp only at taken
    split at taken
    · cases taken
    · cases taken
      refine iff_of_true ?_ trivial
      rcases holds with ⟨unchanged, same⟩ | all
      · refine .inl ⟨unchanged, ?_⟩
        dsimp only
        rw [same]
      · refine .inr fun value member => ?_
        obtain ⟨inside, other⟩ := mem_removeValue.mp member
        obtain ⟨plain, is, opensNew⟩ := all value inside
        exact ⟨plain, (update_of_ne other _ _).trans is, opensNew⟩

end

theorem nothingMissed_idle {cipher : Cipher} {current new : String} {dryRun : Bool} {state : State}
    {event : Event} (idle : step cipher current new dryRun state event = none) :
    NothingMissed state event := by
  unfold step at idle
  unfold NothingMissed
  cases event with
  | commit answered =>
    dsimp only at idle ⊢
    split at idle
    · split at idle
      · cases idle
      · cases idle
    · trivial
  | put column id plain =>
    dsimp only at idle ⊢
    split at idle
    · rename_i outcome under
      rw [under]
      trivial
    · cases idle
  | _ => trivial

theorem beginning_kept {cipher : Cipher} {values : List Value} (current new : String)
    (cells : (values.map Value.cell).Nodup) :
    Kept cipher current new (beginning cipher values current) := by
  refine ⟨cells, fun _ => rfl, fun _ value member plain is => ?_, fun _ => rfl, ?_⟩
  · have found : values.find? (fun other => other.cell = value.cell) = some value := by
      cases search : values.find? fun other => other.cell = value.cell with
      | none =>
        have missed := find?_eq_none.mp search value member
        exact absurd (decide_eq_true rfl) missed
      | some other =>
        have hit := find?_some search
        rw [eq_of_cell cells (mem_of_find?_eq_some search) member (of_decide_eq_true hit)]
    unfold beginning meantBy
    dsimp only
    rw [found]
    exact is
  · refine ⟨by decide, nodup_nil, fun value member => absurd member not_mem_nil,
      fun value _ => .inl ?_⟩
    cases value.column <;> decide

theorem keysOf_ne {input : Input} {current new : String} (keys : keysOf input = some (current, new)) :
    current ≠ new := by
  unfold keysOf at keys
  split at keys
  · split at keys
    · cases keys
    · rename_i admitted
      cases keys
      rintro rfl
      exact admitted (by simp)
  · cases keys

/-- The key is changed for every sealed value or for none, in every state of a run, just when every
value that is there at the transaction was read, and none is written after it. -/
theorem rekey_all_or_nothing_iff (cipher : Cipher) (opens : cipher.Opens) (refuses : cipher.Refuses)
    (input : Input) (current new : String) (keys : keysOf input = some (current, new))
    (values : List Value) (cells : (values.map Value.cell).Nodup) (events : List Event) :
    Systems.Along (step cipher current new input.dryRun) (AllOrNothing cipher new)
        (beginning cipher values current) events ↔
      Systems.Meets (step cipher current new input.dryRun) NothingMissed
        (beginning cipher values current) events :=
  Systems.along_iff_meets
    (fun _ _ _ kept _ _ taken => kept_step kept opens taken)
    (fun _ _ _ kept holds taken =>
      allOrNothing_step refuses (keysOf_ne keys) kept holds taken)
    (fun _ _ idle => nothingMissed_idle idle) (beginning_kept current new cells)
    (.inl ⟨rfl, rfl⟩)

/-! ### A webhook, changed while its secrets are sealed again -/

/-- A text closed with a key: each sign of the key behind a mark, the end of it, and the text. -/
def close (key plain : List Char) : List Char :=
  key.foldr (fun char text => 'k' :: char :: text) ('t' :: plain)

def unlock : List Char → List Char → Option (List Char)
  | [], 't' :: plain => some plain
  | char :: key, 'k' :: other :: text => if char = other then unlock key text else none
  | _, _ => none

theorem unlock_close (key plain : List Char) : unlock key (close key plain) = some plain := by
  induction key with
  | nil => rfl
  | cons char key inductionHypothesis =>
    exact (if_pos rfl).trans inductionHypothesis

theorem unlock_other {key other : List Char} (different : key ≠ other) (plain : List Char) :
    unlock other (close key plain) = none := by
  induction key generalizing other with
  | nil =>
    cases other with
    | nil => exact absurd rfl different
    | cons char rest => rfl
  | cons char key inductionHypothesis =>
    cases other with
    | nil => rfl
    | cons first rest =>
      by_cases same : first = char
      · refine (if_pos same).trans (inductionHypothesis fun equal => different ?_)
        rw [same, equal]
      · exact if_neg same

/-- Values closed with the key itself. -/
def plainCipher : Cipher where
  sealWith key _ plain := String.ofList (close key.toList plain.toList)
  openWith key stored := (unlock key.toList stored.toList).map String.ofList

theorem plainCipher_opens : plainCipher.Opens := by
  intro key random plain
  unfold plainCipher
  dsimp only
  rw [String.toList_ofList, unlock_close, map_some, String.ofList_toList]

theorem plainCipher_refuses : plainCipher.Refuses := by
  intro key other random plain different
  unfold plainCipher
  dsimp only
  rw [String.toList_ofList, unlock_other fun same => different (String.toList_injective same)]
  rfl

def oldKey : String := "0123456789abcdef0123456789abcdef"

def newKey : String := "fedcba9876543210fedcba9876543210"

def bothKeys : Input := ⟨some oldKey, some newKey, none, false⟩

theorem keysOf_bothKeys : keysOf bothKeys = some (oldKey, newKey) := by
  decide +kernel

/-- A channel's address, as it is stored. -/
def address : Value := ⟨.url, 0, plainCipher.sealWith oldKey 0 "https://crew.example"⟩

/-- Everything is read and sealed again. -/
def readAll : List Event := SEALED_COLUMNS.map Event.load ++ [.sealAgain]

theorem ready_after_readAll :
    (Systems.run (step plainCipher oldKey newKey false) (beginning plainCipher [address] oldKey)
      readAll).map (fun last => (last.phase, last.values)) =
      some (.ready [⟨address, "https://crew.example",
        plainCipher.sealWith newKey 0 "https://crew.example"⟩], [address]) := by
  decide +kernel

theorem rekey_all_or_nothing_iff_quiet :
    Systems.Along (step plainCipher oldKey newKey false) (AllOrNothing plainCipher newKey)
      (beginning plainCipher [address] oldKey) (readAll ++ [.commit true, .answer]) := by
  refine (rekey_all_or_nothing_iff plainCipher plainCipher_opens plainCipher_refuses bothKeys
    oldKey newKey keysOf_bothKeys [address] (nodup_singleton _) _).mpr ?_
  obtain ⟨middle, run, both⟩ := map_eq_some_iff.mp ready_after_readAll
  obtain ⟨phase, values⟩ := Prod.mk.inj both
  refine Systems.Meets.append ?_ run ⟨?_, fun next _ => ⟨trivial, fun _ _ => trivial⟩⟩
  · iterate 10
      refine Systems.meets_cons trivial rfl ?_
    trivial
  · unfold NothingMissed
    rw [phase]
    intro _ _ value member
    rw [values] at member
    rw [mem_singleton.mp member]
    exact ⟨_, mem_singleton.mpr rfl, rfl⟩

/-- The channel is given a signing secret after that column was read. -/
def signedMeanwhile : List Event :=
  SEALED_COLUMNS.map Event.load ++ [.put .signingSecret 0 "signed", .sealAgain, .commit true]

theorem signing_secret_is_left :
    (Systems.run (step plainCipher oldKey newKey false) (beginning plainCipher [address] oldKey)
      signedMeanwhile).map (fun last => (last.changed,
        last.values.map fun value => plainCipher.openWith newKey value.stored)) =
      some (true, [none, some "https://crew.example"]) := by
  decide +kernel

/-- A value is left that the new key does not open, and another one has been changed. -/
theorem rekey_leaves_value :
    ¬ ∀ events, Systems.Along (step plainCipher oldKey newKey false)
      (AllOrNothing plainCipher newKey) (beginning plainCipher [address] oldKey) events := by
  intro always
  obtain ⟨last, run, both⟩ := map_eq_some_iff.mp signing_secret_is_left
  obtain ⟨changed, values⟩ := Prod.mk.inj both
  rcases Systems.along_last (always signedMeanwhile) run with ⟨unchanged, -⟩ | all
  · rw [changed] at unchanged
    cases unchanged
  · have missed : none ∈ last.values.map fun value => plainCipher.openWith newKey value.stored := by
      rw [values]
      exact mem_cons_self
    obtain ⟨value, member, isNone⟩ := List.mem_map.mp missed
    obtain ⟨plain, -, opensNew⟩ := all value member
    rw [isNone] at opensNew
    cases opensNew

end Geeboard.Secrets
