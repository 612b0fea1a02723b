/-
This file is about a server's secret settings, sealed beside the others.

A save writes the settings without the secret ones in one column and the secret ones,
sealed together, in another. An older panel leaves secrets in the clear, and a pass at
the start of the poller seals them and takes them out of the clear, in one write that
only lands on the columns that were read. Which settings are secret is what the game's
definition says at that moment; a value that was sealed before, and is of no secret
setting any more, is not sealed again.
-/

import Geeboard.Games.HiddenSettings
import Geeboard.Systems.Steps

namespace Geeboard.Secrets.Settings

open Option
open Text (Record)
open Games (ConfigValues GameDefinition get_secretValuesOf isSecret secretKeys secretValuesOf
  withoutSecrets)

/-! ### What is sealed -/

/-- What a sealed text says once it is opened: an object, whose members are values of settings or
something else, or something that is no object. -/
inductive Plain where
  | object (members : Record String (Option Games.ConfigValue))
  | other
  deriving DecidableEq, Repr

/-- How values are sealed and opened. A sealing is random, which the number stands for; what does
not open, or says nothing, gives nothing. -/
structure Sealer (Sealed : Type) where
  seal_ : Nat → ConfigValues → Sealed
  open_ : Sealed → Option Plain

/-- Opening a value sealed with the key returns it. -/
def Sealer.Opens {Sealed : Type} (sealer : Sealer Sealed) : Prop :=
  ∀ random values, sealer.open_ (sealer.seal_ random values) =
    some (.object (values.mapValues fun _ value => some value))

section

variable {Sealed : Type} (sealer : Sealer Sealed)

/-- What goes in the sealed column for these settings. -/
def sealSecretValues (game : GameDefinition) (values : ConfigValues) (random : Nat) :
    Option Sealed :=
  (Games.settingsData game values).secretSettings.map (sealer.seal_ random)

/-- The sealed column, opened. -/
def openSecretValues : Option Sealed → Option ConfigValues
  | none => some .empty
  | some stored =>
    (sealer.open_ stored).map fun plain =>
      match plain with
      | .object members => members.compact
      | .other => .empty

end

/-- The clear column, and from the sealed one every key the clear one does not have. -/
def withSealedValues (clear opened : ConfigValues) : ConfigValues := opened.merge clear

/-- Whether the sealed column says what the clear one does, for the secrets the clear one has. -/
def sealedIsCurrent (game : GameDefinition) (clear opened : ConfigValues) : Bool :=
  (secretValuesOf game clear).entries.all fun entry => opened.get entry.1 == some entry.2

/-! ### A server's row -/

/-- The columns of a server's row that hold its settings, the secret ones sealed. -/
abbrev Row (Sealed : Type) : Type := Games.ColumnsOf Sealed

section

variable {Sealed : Type} (sealer : Sealer Sealed)

/-- A server's settings as they are, unless the sealed ones do not open. -/
def storedSettings (row : Row Sealed) : Option ConfigValues :=
  match row.secretSettings with
  | none => some (Games.storedSettings ⟨row.config, none⟩)
  | some stored => (openSecretValues sealer (some stored)).map fun opened =>
    Games.storedSettings ⟨row.config, some opened⟩

/-- The columns a save writes. -/
def settingsData (game : GameDefinition) (values : ConfigValues) (random : Nat) : Row Sealed :=
  ⟨(Games.settingsData game values).config, sealSecretValues sealer game values random⟩

/-- Whether two objects hold the same, whatever the order of their keys. -/
def sameObject (first second : ConfigValues) : Bool :=
  first.entries.all (fun entry => second.get entry.1 == some entry.2) &&
    second.entries.all fun entry => first.get entry.1 == some entry.2

/-- Whether a row still holds what was read of it. -/
def isAsRead [DecidableEq Sealed] (row read : Row Sealed) : Bool :=
  row.secretSettings == read.secretSettings &&
    match row.config, read.config with
    | some config, some other => sameObject config other
    | none, none => true
    | _, _ => false

/-- What the pass writes for a row as it read it, if anything. -/
def sealServer (game : GameDefinition) (random : Nat) (read : Row Sealed) : Option (Row Sealed) :=
  let clear := read.config.getD .empty
  if (secretValuesOf game clear).entries.isEmpty then none
  else
    (openSecretValues sealer read.secretSettings).map fun opened =>
      { config := some (withoutSecrets game clear)
        secretSettings :=
          if sealedIsCurrent game clear opened then read.secretSettings
          else sealSecretValues sealer game (withSealedValues clear opened) random }

end

/-! ### Passes and saves -/

/-- A server's row, what each pass has read of it, and what the settings are meant to be: what the
last save left, or nothing where they do not open. -/
structure State (Sealed : Type) where
  row : Row Sealed
  passes : Nat → Option (Row Sealed)
  meant : Option (String → Option Games.ConfigValue)

/-- A save of these settings, a write of both columns by another panel, and the pass of a poller:
its reading, and its write for the server under the definition it finds, or none at all. -/
inductive Event (Sealed : Type) where
  | save (game : GameDefinition) (values : ConfigValues) (random : Nat)
  | put (row : Row Sealed)
  | read (pass : Nat)
  | write (pass : Nat) (game : GameDefinition) (random : Nat)
  | leave (pass : Nat)

section

variable {Sealed : Type} [DecidableEq Sealed] (sealer : Sealer Sealed)

def step (state : State Sealed) : Event Sealed → Option (State Sealed)
  | .save game values random =>
    some { state with row := settingsData sealer game values random, meant := some values.get }
  | .put row => some { state with row := row, meant := (storedSettings sealer row).map Record.get }
  | .read pass => some { state with passes := Function.update state.passes pass (some state.row) }
  | .write pass game random =>
    (state.passes pass).map fun read =>
      { state with
        passes := Function.update state.passes pass none
        row :=
          match sealServer sealer game random read with
          | none => state.row
          | some data => if isAsRead state.row read then data else state.row }
  | .leave pass => some { state with passes := Function.update state.passes pass none }

/-- A row that nobody is working on. -/
def beginning (row : Row Sealed) : State Sealed :=
  ⟨row, fun _ => none, (storedSettings sealer row).map Record.get⟩

/-- The settings are what they are meant to be. -/
def Unchanged (state : State Sealed) : Prop :=
  (storedSettings sealer state.row).map Record.get = state.meant

/-- What a pass seals again: where it has something to take out of the clear, and the sealed column
does not say the same, each sealed value is one of a secret of the definition in force, or of a
setting that the clear column has. -/
def NothingForgotten (state : State Sealed) : Event Sealed → Prop
  | .write pass game _ =>
    ∀ read, state.passes pass = some read → isAsRead state.row read = true →
      ∀ opened, openSecretValues sealer read.secretSettings = some opened →
        sealedIsCurrent game (read.config.getD .empty) opened = false →
          ∀ key, opened.has key = true →
            isSecret game key = true ∨ (read.config.getD .empty).has key = true
  | _ => True

end

/-! ### What the columns give -/

section

variable {Sealed : Type} {sealer : Sealer Sealed} {game : GameDefinition}

/-- What is sealed of some settings opens to the secret ones. -/
theorem open_sealSecretValues (opens : sealer.Opens) (game : GameDefinition)
    (values : ConfigValues) (random : Nat) :
    ∃ opened, openSecretValues sealer (sealSecretValues sealer game values random) = some opened ∧
      ∀ key, opened.get key = if isSecret game key then values.get key else none := by
  unfold sealSecretValues Games.settingsData
  dsimp only
  split
  · rename_i empty
    refine ⟨.empty, rfl, fun key => ?_⟩
    rw [← get_secretValuesOf]
    unfold Record.get
    rw [List.isEmpty_iff.mp empty]
    rfl
  · refine ⟨_, congrArg (Option.map _) (opens random (secretValuesOf game values)), fun key => ?_⟩
    dsimp only
    rw [Record.get_compact, Record.get_mapValues, ← get_secretValuesOf]
    cases (secretValuesOf game values).get key with
    | none => rfl
    | some value => rfl

/-- A row's settings: what the clear column has, and else what the sealed one has. -/
theorem get_storedSettings {row : Row Sealed} {opened : ConfigValues}
    (opens : openSecretValues sealer row.secretSettings = some opened) :
    (storedSettings sealer row).map Record.get =
      some fun key => ((row.config.getD .empty).get key).or (opened.get key) := by
  unfold storedSettings
  split
  · rename_i none_
    rw [none_] at opens
    cases opens
    refine congrArg some (funext fun key => ?_)
    rw [Record.get_empty, or_none]
    rfl
  · rename_i stored some_
    rw [some_] at opens
    rw [opens, map_some, map_some]
    exact congrArg some (funext fun key => Record.get_merge _ _ key)

theorem get_columns {sealed_ : Option Sealed} {opened : ConfigValues} (config : ConfigValues)
    (opens : openSecretValues sealer sealed_ = some opened) :
    (storedSettings sealer ⟨some config, sealed_⟩).map Record.get =
      some fun key => (config.get key).or (opened.get key) :=
  get_storedSettings opens

theorem storedSettings_none {row : Row Sealed}
    (shut : openSecretValues sealer row.secretSettings = none) : storedSettings sealer row = none := by
  unfold storedSettings
  split
  · rename_i none_
    rw [none_] at shut
    cases shut
  · rename_i stored some_
    rw [some_] at shut
    rw [shut]
    rfl

/-- A save's columns hold the settings that were saved. -/
theorem storedSettings_settingsData (opens : sealer.Opens) (values : ConfigValues) (random : Nat) :
    (storedSettings sealer (settingsData sealer game values random)).map Record.get =
      some values.get := by
  obtain ⟨opened, is, each⟩ := open_sealSecretValues opens game values random
  unfold settingsData Games.settingsData
  rw [get_columns _ is]
  refine congrArg some (funext fun key => ?_)
  rw [each, Games.get_withoutSecrets_or]

theorem settingsData_plain (values : ConfigValues) (random : Nat) {key : String}
    (secret : key ∈ secretKeys game) {config : ConfigValues}
    (is : (settingsData sealer game values random).config = some config) : config.get key = none := by
  unfold settingsData at is
  cases is
  have is : isSecret game key = true := List.contains_iff_mem.mpr secret
  unfold withoutSecrets
  rw [Record.get_only, is]
  rfl

/-! ### The write of a pass -/

theorem sameObject_get {first second : ConfigValues} (same : sameObject first second = true)
    (key : String) : first.get key = second.get key := by
  unfold sameObject at same
  obtain ⟨there, back⟩ := Bool.and_eq_true_iff.mp same
  cases here : first.get key with
  | some value =>
    have is := List.all_eq_true.mp there (key, value) (Record.mem_of_get here)
    exact (beq_iff_eq.mp is).symm
  | none =>
    cases other : second.get key with
    | none => rfl
    | some value =>
      have is := beq_iff_eq.mp (List.all_eq_true.mp back (key, value) (Record.mem_of_get other))
      rw [here] at is
      cases is

/-- A row that is as it was read holds the same settings. -/
theorem storedSettings_isAsRead [DecidableEq Sealed] {row read : Row Sealed}
    (asRead : isAsRead row read = true) :
    (storedSettings sealer row).map Record.get = (storedSettings sealer read).map Record.get := by
  unfold isAsRead at asRead
  obtain ⟨sealed_, config⟩ := Bool.and_eq_true_iff.mp asRead
  have same : row.secretSettings = read.secretSettings := beq_iff_eq.mp sealed_
  have clear : ∀ key, (row.config.getD .empty).get key = (read.config.getD .empty).get key := by
    intro key
    cases mine : row.config with
    | none =>
      cases theirs : read.config with
      | none => rfl
      | some other =>
        rw [mine, theirs] at config
        cases config
    | some values =>
      cases theirs : read.config with
      | none =>
        rw [mine, theirs] at config
        cases config
      | some other =>
        rw [mine, theirs] at config
        exact sameObject_get config key
  cases opens : openSecretValues sealer read.secretSettings with
  | none => rw [storedSettings_none opens, storedSettings_none (same ▸ opens)]
  | some opened =>
    rw [get_storedSettings opens, get_storedSettings (same ▸ opens)]
    exact congrArg some (funext fun key => by rw [clear])

theorem get_of_sealedIsCurrent {clear opened : ConfigValues}
    (current : sealedIsCurrent game clear opened = true) {key : String} {value : Games.ConfigValue}
    (secret : isSecret game key = true) (held : clear.get key = some value) :
    opened.get key = some value := by
  have member : (key, value) ∈ (secretValuesOf game clear).entries :=
    Record.mem_of_get (by rw [get_secretValuesOf, if_pos secret, held])
  exact beq_iff_eq.mp (List.all_eq_true.mp current _ member)

/-- The pass leaves a row's settings as they are just when what it seals again forgets nothing. -/
theorem sealServer_keeps_iff (opens : sealer.Opens) {read data : Row Sealed} {random : Nat}
    (written : sealServer sealer game random read = some data) :
    ((storedSettings sealer data).map Record.get = (storedSettings sealer read).map Record.get ↔
      ∀ opened, openSecretValues sealer read.secretSettings = some opened →
        sealedIsCurrent game (read.config.getD .empty) opened = false →
          ∀ key, opened.has key = true →
            isSecret game key = true ∨ (read.config.getD .empty).has key = true) := by
  unfold sealServer at written
  dsimp only at written
  split at written
  · cases written
  · obtain ⟨opened, is, made⟩ := map_eq_some_iff.mp written
    generalize clearIs : read.config.getD .empty = clear at written made
    have plain : ∀ key, (withoutSecrets game clear).get key =
        if isSecret game key then none else clear.get key := by
      intro key
      unfold withoutSecrets
      rw [Record.get_only]
      cases isSecret game key with
      | true => rfl
      | false => rfl
    rw [get_storedSettings is, clearIs]
    by_cases current : sealedIsCurrent game clear opened = true
    · rw [if_pos current] at made
      cases made
      refine iff_of_true ?_ fun other isToo stale => ?_
      · rw [get_columns _ is]
        refine congrArg some (funext fun key => ?_)
        rw [plain]
        by_cases secret : isSecret game key = true
        · rw [if_pos secret, none_or]
          cases held : clear.get key with
          | none => rfl
          | some value => exact get_of_sealedIsCurrent current secret held
        · rw [if_neg secret]
      · rw [is] at isToo
        cases isToo
        rw [current] at stale
        cases stale
    · rw [if_neg current] at made
      cases made
      rw [Bool.not_eq_true] at current
      obtain ⟨again, isAgain, each⟩ :=
        open_sealSecretValues opens game (withSealedValues clear opened) random
      rw [get_columns _ isAgain, some.injEq, funext_iff]
      have step_ : ∀ key, ((withoutSecrets game clear).get key).or (again.get key) =
          (clear.get key).or (opened.get key) ↔
            (opened.has key = true → isSecret game key = true ∨ clear.has key = true) := by
        intro key
        rw [plain, each]
        unfold withSealedValues Record.has
        rw [Record.get_merge]
        by_cases secret : isSecret game key = true
        · rw [if_pos secret, if_pos secret, none_or]
          exact iff_of_true rfl fun _ => .inl secret
        · rw [if_neg secret, if_neg secret, or_none]
          cases clear.get key with
          | some value => exact iff_of_true rfl fun _ => .inr rfl
          | none =>
            cases opened.get key with
            | none => exact iff_of_true rfl fun none_ => by cases none_
            | some value =>
              refine iff_of_false (fun same => by cases same) fun all => ?_
              rcases all rfl with isSecret_ | none_
              · exact secret isSecret_
              · cases none_
      constructor
      · intro same other isToo _ key
        rw [is] at isToo
        cases isToo
        exact (step_ key).mp (same key)
      · exact fun all key => (step_ key).mpr (all opened is current key)

/-- Where the pass writes nothing, there is nothing to forget. -/
theorem current_of_idle {read : Row Sealed} {random : Nat}
    (idle : sealServer sealer game random read = none) {opened : ConfigValues}
    (opens : openSecretValues sealer read.secretSettings = some opened) :
    sealedIsCurrent game (read.config.getD .empty) opened = true := by
  unfold sealServer at idle
  dsimp only at idle
  split at idle
  · rename_i nothing
    unfold sealedIsCurrent
    rw [List.isEmpty_iff.mp nothing]
    rfl
  · rw [opens] at idle
    cases idle

theorem unchanged_step [DecidableEq Sealed] (opens : sealer.Opens) {state next : State Sealed}
    {event : Event Sealed} (holds : Unchanged sealer state)
    (taken : step sealer state event = some next) :
    Unchanged sealer next ↔ NothingForgotten sealer state event := by
  cases event with
  | save game values random =>
    cases taken
    exact iff_of_true (storedSettings_settingsData opens values random) trivial
  | put row =>
    cases taken
    exact iff_of_true rfl trivial
  | read pass | leave pass =>
    cases taken
    exact iff_of_true holds trivial
  | write pass game random =>
    obtain ⟨read, of_, made⟩ := map_eq_some_iff.mp taken
    have only_ : ∀ {other}, state.passes pass = some other → other = read :=
      fun same => some.inj (same.symm.trans of_)
    cases wrote : sealServer sealer game random read with
    | none =>
      rw [wrote] at made
      cases made
      refine iff_of_true holds fun other is _ opened isOpened stale => ?_
      obtain rfl := only_ is
      rw [current_of_idle wrote isOpened] at stale
      cases stale
    | some data =>
      rw [wrote] at made
      dsimp only at made
      by_cases asRead : isAsRead state.row read = true
      · rw [if_pos asRead] at made
        cases made
        unfold Unchanged
        dsimp only
        rw [← holds, storedSettings_isAsRead asRead, sealServer_keeps_iff opens wrote]
        constructor
        · intro all other is _
          obtain rfl := only_ is
          exact all
        · exact fun all => all read of_ asRead
      · rw [if_neg asRead] at made
        cases made
        refine iff_of_true holds fun other is asToo => ?_
        obtain rfl := only_ is
        exact absurd asToo asRead

theorem nothingForgotten_idle [DecidableEq Sealed] {state : State Sealed} {event : Event Sealed}
    (idle : step sealer state event = none) : NothingForgotten sealer state event := by
  cases event with
  | write pass game random =>
    intro read is
    rw [map_eq_none_iff.mp idle] at is
    cases is
  | _ => trivial

end

/-- What a save writes holds the settings that were saved, and no secret in the clear; and the
settings of a row stay as they are in every state of a run of passes and saves just when no pass
seals again without a value that is of no secret and not in the clear. -/
theorem sealing_loses_nothing_iff {Sealed : Type} [DecidableEq Sealed] (sealer : Sealer Sealed)
    (opens : sealer.Opens) :
    (∀ (game : GameDefinition) (values : ConfigValues) (random : Nat),
        (storedSettings sealer (settingsData sealer game values random)).map Record.get =
            some values.get ∧
          ∀ key ∈ secretKeys game, ∀ config,
            (settingsData sealer game values random).config = some config →
              config.get key = none) ∧
      ∀ (row : Row Sealed) (events : List (Event Sealed)),
        Systems.Along (step sealer) (Unchanged sealer) (beginning sealer row) events ↔
          Systems.Meets (step sealer) (NothingForgotten sealer) (beginning sealer row) events :=
  ⟨fun _ values random => ⟨storedSettings_settingsData opens values random,
      fun _ secret _ is => settingsData_plain values random secret is⟩,
    fun _ _ => Systems.along_iff_meets (fun _ _ _ (_ : True) _ _ _ => trivial)
      (fun _ _ _ _ holds taken => unchanged_step opens holds taken)
      (fun _ _ idle => nothingForgotten_idle idle) trivial rfl⟩

/-! ### A password left in the clear -/

/-- Values kept as they are. -/
def openly : Sealer Plain where
  seal_ _ values := .object (values.mapValues fun _ value => some value)
  open_ := some

theorem openly_opens : openly.Opens := fun _ _ => rfl

/-- A row with a password in the clear, beside a sealed value. -/
def leftInTheClear (sealed_ : String) : Row Plain where
  config := some (.ofEntries [("password", .string "one".toList)])
  secretSettings := some (.object (.ofEntries [(sealed_, some (.string "two".toList))]))

/-- The pass of a poller. -/
def onePass : List (Event Plain) := [.read 0, .write 0 Games.joinGame 0]

theorem sealing_loses_nothing_iff_onePass :
    Systems.Along (step openly) (Unchanged openly) (beginning openly (leftInTheClear "password"))
      onePass := by
  refine ((sealing_loses_nothing_iff openly openly_opens).2 _ onePass).mpr ?_
  refine Systems.meets_cons trivial rfl ?_
  refine ⟨fun read is _ opened isOpened _ key there => .inl ?_, fun next taken => trivial⟩
  obtain rfl := some.inj is
  obtain rfl := some.inj isOpened
  have member := (Record.mem_keys_iff _ _).mpr there
  rw [List.mem_singleton.mp member]
  decide

theorem token_is_forgotten :
    (Systems.run (step openly) (beginning openly (leftInTheClear "token")) onePass).map
      (fun last => ((storedSettings openly last.row).map fun stored => stored.get "token",
        last.meant.map fun meant => meant "token")) =
      some (some none, some (some (.string "two".toList))) := by
  decide +kernel

/-- A sealed value of a setting that is no secret any more is gone after the pass. -/
theorem sealing_loses_token :
    ¬ ∀ events, Systems.Along (step openly) (Unchanged openly)
      (beginning openly (leftInTheClear "token")) events := by
  intro always
  obtain ⟨last, run, both⟩ := map_eq_some_iff.mp token_is_forgotten
  obtain ⟨stored, meant⟩ := Prod.mk.inj both
  have same : Unchanged openly last := Systems.along_last (always onePass) run
  unfold Unchanged at same
  rw [← same, Option.map_map] at meant
  have equal := stored.symm.trans meant
  cases some.inj equal

end Geeboard.Secrets.Settings
