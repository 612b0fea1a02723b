/-
This file is what a game's definition says about its settings and its workload.

A setting has a type, a default, and a target: the place in the game's
environment, arguments or files where its value has to land. The rules between
settings (shown by another one, needed by another one) are data of the field.
A definition also says which image lines and variables it needs whatever is set,
which ports its server has, and where lists of mods go.
-/

import Geeboard.Text.Numerals
import Geeboard.Text.Records

namespace Geeboard.Games

open Option
open Text (Record)

/-- What the language does with numbers and letters: it spells a number, reads a text as one, and
writes a text in lower case. -/
structure Language where
  numberText : Rat → List Char
  readNumber : List Char → Option Rat
  lowerCase : List Char → List Char

/-- A whole number in decimal digits, with a sign where it is negative. -/
def readWhole (text : List Char) : Option Rat :=
  let digits := if text.head? = some '-' then text.tail else text
  if digits ≠ [] ∧ digits.all Char.isDigit then
    let value : Int := Nat.ofDigitChars 10 digits 0
    some (if text.head? = some '-' then -value else value)
  else none

/-- The language as far as whole numbers and the letters of ASCII go. -/
def ascii : Language where
  numberText value := Text.inBase 10 value.num
  readNumber := readWhole
  lowerCase text := text.map Char.toLower

/-! ### Settings -/

/-- The value of a setting. -/
inductive ConfigValue where
  | string (text : List Char)
  | number (value : Rat)
  | boolean (value : Bool)
  deriving DecidableEq, Repr

/-- A value as the language writes it as a text. -/
def asText (language : Language) : ConfigValue → List Char
  | .string text => text
  | .number value => language.numberText value
  | .boolean value => if value then "true".toList else "false".toList

/-- The values of some settings, by key. -/
abbrev ConfigValues := Record String ConfigValue

inductive FieldType where
  | string | text | number | boolean | enum
  deriving DecidableEq, Repr

/-- An assignment that goes with another one: a fixed value, or one by the value of the field. -/
structure Companion where
  key : List Char
  value : Option (List Char) := none
  byValue : Option (Record (List Char) (List Char)) := none
  deriving DecidableEq, Repr

/-- Where a value has to land for the game to read it. -/
inductive ConfigTarget where
  | env (name : String) (joined : Bool)
  | properties (file : String) (key : List Char) (prefix_ : Option (List Char))
      (java json : Bool)
  | ini (file : String) (section_ key : List Char)
  | json (file : String) (pointer : List Char)
  | lua (file : String) (table key : List Char) (also : List Companion)
  | luaBase (file : String) (table prefix_ : List Char)
  | cvar (file : String) (name : List Char)
  | arg (flag : List Char)
  deriving DecidableEq, Repr

/-- A setting is shown only while another one has one of these values. -/
structure ShownWhen where
  key : String
  oneOf : List ConfigValue
  deriving DecidableEq, Repr

structure RequiredWhen where
  key : String
  equals : ConfigValue
  deriving DecidableEq, Repr

structure Pattern where
  regex : String
  message : String
  deriving DecidableEq, Repr

structure ConfigField where
  key : String
  label : String
  type : FieldType
  target : ConfigTarget
  default : ConfigValue
  min : Option Rat := none
  max : Option Rat := none
  maxLength : Option Nat := none
  minLength : Option Nat := none
  requiredWhen : Option RequiredWhen := none
  shownWhen : Option ShownWhen := none
  unsetWhenEmpty : Bool := false
  mustNotContain : Option String := none
  pattern : Option Pattern := none
  fixedAfterCreation : Bool := false
  lines : Option (List String) := none
  options : Option (List (List Char)) := none
  restartRequired : Bool := false
  secret : Bool := false
  formerEnv : Option String := none
  deriving DecidableEq, Repr

/-! ### Installs, versions and mods -/

/-- Lines a game's own file has to contain whatever is set. -/
structure FixedFile where
  file : String
  entries : Record (List Char) (List Char)
  creating : Bool := false
  deriving DecidableEq, Repr

inductive InstallStrategy where
  | image (env : Record String (List Char)) (files : List FixedFile)
  | steamcmd (env : Record String (List Char))
  | download
  deriving DecidableEq, Repr

structure GameVersion where
  id : String
  line : Option String := none
  image : String
  env : Record String (List Char) := .empty
  args : List (List Char) := []
  supported : Bool := true
  deriving DecidableEq, Repr

inductive ModFileKind where
  | idLines | luaAddWorkshop
  deriving DecidableEq, Repr

/-- Where a list of mods goes: a key in a settings file, or a file of its own. -/
inductive ModTarget where
  | key (file : String) (key separator : List Char)
  | whole (kind : ModFileKind) (file : String)
  deriving DecidableEq, Repr

structure ModSupport where
  items : ModTarget
  enabled : Option ModTarget := none
  clients : Option ModTarget := none
  deriving DecidableEq, Repr

/-! ### Ports and resources -/

inductive Protocol where
  | tcp | udp | both
  deriving DecidableEq, Repr

structure PortRole where
  id : String
  label : String
  offset : Nat
  protocol : Protocol
  container : Option Nat := none
  isPublic : Bool := true
  deriving DecidableEq, Repr

/-- The variables a workload gets from what it was given: memory, ports, and generated secrets. -/
structure ResourceEnv where
  memory : Option (String × Nat) := none
  ports : Record String String := .empty
  secrets : Record String String := .empty
  deriving DecidableEq, Repr

structure GameDefinition where
  id : String
  name : String
  config : List ConfigField
  install : InstallStrategy := .image .empty []
  versions : List GameVersion := []
  mods : Option ModSupport := none
  ports : List PortRole := []
  resourceEnv : Option ResourceEnv := none
  dataPath : Option String := none
  cachePaths : Option (List String) := none
  deriving DecidableEq, Repr

/-! ### Settings of a definition -/

/-- The settings a version has. -/
def configFor (game : GameDefinition) (line : Option String) : List ConfigField :=
  game.config.filter fun field =>
    match field.lines with
    | none => true
    | some lines => line.any lines.contains

/-- The same game, narrowed to one version line. -/
def scopeToLine (game : GameDefinition) (line : Option String) : GameDefinition :=
  { game with config := configFor game line }

/-- Every field at its default. -/
def defaultsFor (game : GameDefinition) : ConfigValues :=
  .ofEntries (game.config.map fun field => (field.key, field.default))

/-- The settings a server has, over the game's defaults. -/
def currentConfig (game : GameDefinition) (stored : ConfigValues) : ConfigValues :=
  (defaultsFor game).merge stored

/-- The keys of a game's settings that let somebody in. -/
def secretKeys (game : GameDefinition) : List String :=
  (game.config.filter ConfigField.secret).map ConfigField.key

/-- Whether a setting is shown, asked of it and of the settings it depends on, as long as none
comes again. A chain of settings is no longer than there are settings. -/
def shownFrom (config : List ConfigField) (values : ConfigValues) :
    Nat → List String → ConfigField → Bool
  | 0, _, _ => false
  | steps + 1, seen, field =>
    match field.shownWhen with
    | none => true
    | some rule =>
      match config.find? fun other => other.key == rule.key with
      | none => false
      | some decider =>
        !seen.contains field.key &&
          rule.oneOf.contains ((values.get rule.key).getD decider.default) &&
          shownFrom config values steps (field.key :: seen) decider

/-- Whether a setting is shown, and so written, for these values. -/
def settingShown (game : GameDefinition) (field : ConfigField) (values : ConfigValues) : Bool :=
  shownFrom game.config values (game.config.length + 1) [] field

/-! ### Sealed settings -/

def isSecret (game : GameDefinition) (key : String) : Bool := (secretKeys game).contains key

/-- The same values without the secret ones. -/
def withoutSecrets (game : GameDefinition) (values : ConfigValues) : ConfigValues :=
  values.only fun key => !isSecret game key

/-- The secret settings among these, and their values. -/
def secretValuesOf (game : GameDefinition) (values : ConfigValues) : ConfigValues :=
  .ofEntries ((secretKeys game).filterMap fun key => (values.get key).map (key, ·))

/-- The columns of a server's row that hold its settings, the secret ones as they are kept. -/
structure ColumnsOf (Kept : Type) where
  config : Option ConfigValues
  secretSettings : Option Kept
  deriving DecidableEq, Repr

/-- The columns with what is sealed opened. -/
abbrev StoredColumns : Type := ColumnsOf ConfigValues

/-- A server's settings as they are, sealed ones included. The clear copy wins. -/
def storedSettings (columns : StoredColumns) : ConfigValues :=
  let clear := columns.config.getD .empty
  match columns.secretSettings with
  | none => clear
  | some opened => opened.merge clear

/-- The columns a save writes. -/
def settingsData (game : GameDefinition) (values : ConfigValues) : StoredColumns :=
  let secret := secretValuesOf game values
  ⟨some (withoutSecrets game values), if secret.entries.isEmpty then none else some secret⟩

/-- What a secret that is set reads as. -/
def SECRET_MASK : List Char := List.replicate 8 '•'

/-- What a save sent, with a secret that came back as the mark put back to what is stored. -/
def unmaskSecrets (game : GameDefinition) (values stored : ConfigValues) : ConfigValues :=
  (secretKeys game).foldl
    (fun out key =>
      if out.get key = some (.string SECRET_MASK) then
        match stored.get key with
        | some value => out.set key value
        | none => out.only fun other => other != key
      else out)
    values

/-! ### What a change would cost -/

/-- How a change reaches the server. -/
inductive Applies where
  | immediately | onRestart | onRecreate
  deriving DecidableEq, Repr

structure ConfigChange where
  key : String
  label : String
  before : ConfigValue
  after : ConfigValue
  applies : Applies
  deriving DecidableEq, Repr

structure ConfigPlan where
  changes : List ConfigChange
  needsRecreate : Bool
  needsRestart : Bool
  deriving DecidableEq, Repr

/-- The settings a workload still carries as the variables an older panel gave it. -/
def heldByWorkload (game : GameDefinition) (built : Option (Record String (List Char))) :
    List String :=
  (game.config.filter fun field =>
    match field.formerEnv with
    | none => false
    | some name => built.all fun env => env.has name).map ConfigField.key

/-- The labels of the changed settings that only take effect on the next boot. -/
def restartRequiredFor (game : GameDefinition) (before after : ConfigValues) : List String :=
  (game.config.filter fun field =>
    field.restartRequired && after.has field.key &&
      before.get field.key != after.get field.key).map ConfigField.label

def ConfigTarget.needsRecreate : ConfigTarget → Bool
  | .env _ _ => true
  | .arg _ => true
  | _ => false

def planConfigChange (game : GameDefinition) (before after : ConfigValues)
    (held : List String) : ConfigPlan :=
  let restartLabels := restartRequiredFor game before after
  let changes := game.config.filterMap fun field =>
    match after.get field.key with
    | none => none
    | some to_ =>
      let from_ := (before.get field.key).getD field.default
      if from_ = to_ then none
      else
        some
          { key := field.key, label := field.label, before := from_, after := to_
            applies :=
              if field.target.needsRecreate || held.contains field.key then .onRecreate
              else if restartLabels.contains field.label then .onRestart
              else .immediately }
  ⟨changes, changes.any fun change => change.applies == .onRecreate,
    changes.any fun change => change.applies == .onRestart⟩

/-! ### What the records give -/

theorem get_currentConfig (game : GameDefinition) (stored : ConfigValues) (key : String) :
    (currentConfig game stored).get key =
      (stored.get key).or ((defaultsFor game).get key) :=
  Record.get_merge _ _ _

theorem get_secretValuesOf (game : GameDefinition) (values : ConfigValues) (key : String) :
    (secretValuesOf game values).get key =
      if isSecret game key then values.get key else none := by
  have members : ∀ value, (key, value) ∈ (secretKeys game).filterMap
      (fun key => (values.get key).map (key, ·)) ↔
        isSecret game key = true ∧ values.get key = some value := by
    intro value
    rw [List.mem_filterMap]
    constructor
    · rintro ⟨other, member, made⟩
      obtain ⟨held, is, same⟩ := map_eq_some_iff.mp made
      cases same
      exact ⟨List.contains_iff_mem.mpr member, is⟩
    · rintro ⟨secret, is⟩
      exact ⟨key, List.contains_iff_mem.mp secret, by rw [is]; rfl⟩
  unfold secretValuesOf
  by_cases secret : isSecret game key = true
  · rw [if_pos secret]
    cases held : values.get key with
    | none =>
      refine Record.get_ofEntries_of_not_mem fun value member => ?_
      have is := ((members value).mp member).2
      rw [held] at is
      cases is
    | some value =>
      refine Record.get_ofEntries_of_mem ((members value).mpr ⟨secret, held⟩) fun other member => ?_
      have is := ((members other).mp member).2
      rw [held] at is
      exact (some.inj is).symm
  · rw [if_neg secret]
    exact Record.get_ofEntries_of_not_mem fun value member => secret ((members value).mp member).1

/-- The clear settings, and behind them the secret ones. -/
theorem get_withoutSecrets_or (game : GameDefinition) (values : ConfigValues) (key : String) :
    ((withoutSecrets game values).get key).or
      (if isSecret game key then values.get key else none) = values.get key := by
  unfold withoutSecrets
  rw [Record.get_only]
  by_cases secret : isSecret game key = true
  · rw [secret]
    rfl
  · rw [Bool.not_eq_true] at secret
    rw [secret]
    exact or_none

/-- What a save writes is what the row then holds. -/
theorem storedSettings_settingsData (game : GameDefinition) (values : ConfigValues)
    (key : String) :
    (storedSettings (settingsData game values)).get key = values.get key := by
  rw [← get_withoutSecrets_or game values key, ← get_secretValuesOf]
  unfold settingsData storedSettings
  dsimp only
  split
  · rename_i none_
    split at none_
    · rename_i empty
      have nothing : (secretValuesOf game values).get key = none := by
        unfold Record.get
        rw [List.isEmpty_iff.mp empty]
        rfl
      rw [nothing, or_none, getD_some]
    · cases none_
  · rename_i opened some_
    split at some_
    · cases some_
    · cases some_
      rw [Record.get_merge, getD_some]

end Geeboard.Games
