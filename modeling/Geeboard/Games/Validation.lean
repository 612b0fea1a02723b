/-
This file is what a value of a setting may be, and what makes a definition's
settings consistent.

A field is checked by its type; a setting that is not shown is not checked, for
it is not written. Rules that read two settings are checked over the whole set a
server would end up with. A definition is audited once: what it says of its
settings has to fit together before any value is asked about.
-/

import Geeboard.Games.Definitions

namespace Geeboard.Games

open Text (Record utf16Length)

/-! ### Checking values -/

/-- What is wrong with a value. -/
structure FieldProblem where
  key : String
  label : String
  message : String
  deriving DecidableEq, Repr

/-- How a setting's pattern is run. -/
abbrev PatternTest := String → List Char → Bool

/-- Whether a text has a line break in it. -/
def hasLineBreak (text : List Char) : Bool :=
  text.any fun char => char == '\n' || char == '\r'

section Check

variable (language : Language) (test : PatternTest)

def checkNumber (field : ConfigField) (raw : ConfigValue) : Option String :=
  if raw = .string [] && field.default == .string [] && field.unsetWhenEmpty then none
  else
    match raw with
    | .number value =>
      if value.den ≠ 1 then some "must be a whole number"
      else if field.min.any fun least => value < least then
        some ("must be at least " ++ String.ofList (language.numberText (field.min.getD 0)))
      else if field.max.any fun most => most < value then
        some ("must be at most " ++ String.ofList (language.numberText (field.max.getD 0)))
      else none
    | _ => some "must be a number"

def checkText (field : ConfigField) (raw : ConfigValue) : Option String :=
  match raw with
  | .string text =>
    let most := field.maxLength.getD (if field.type = .text then 2000 else 200)
    if most < utf16Length text then some s!"must be {most} characters or fewer"
    else if field.type == .string && hasLineBreak text then some "must be a single line"
    else if text.contains '\x00' then some "cannot contain a null byte"
    else
      match field.pattern.filter fun pattern => !text.isEmpty && !test pattern.regex text with
      | some pattern => some pattern.message
      | none =>
        match field.minLength.filter fun least => !text.isEmpty && utf16Length text < least with
        | some least => some s!"must be at least {least} characters"
        | none => none
  | _ => some "must be text"

/-- What is wrong with a value of a field, in words. -/
def checkField (field : ConfigField) (raw : ConfigValue) : Option String :=
  match field.type with
  | .boolean =>
    match raw with
    | .boolean _ => none
    | _ => some "must be true or false"
  | .number => checkNumber language field raw
  | .enum =>
    match raw with
    | .string text =>
      let allowed := field.options.getD []
      if allowed.contains text then none
      else some ("must be one of: " ++ ", ".intercalate (allowed.map String.ofList))
    | _ => some "must be one of the listed options"
  | .string => checkText test field raw
  | .text => checkText test field raw

/-- Whether the second text stands somewhere in the first. -/
def includes (text part : List Char) : Bool :=
  text.tails.any fun tail => part.isPrefixOf tail

/-- What the rules of one field say about a whole set of settings. -/
def ruleProblems (game : GameDefinition) (settled : ConfigValues) (field : ConfigField) :
    List FieldProblem :=
  let value := settled.get field.key
  let labelOf := fun key =>
    String.ofList (language.lowerCase
      (((game.config.find? fun other => other.key == key).map ConfigField.label).getD key).toList)
  (match field.requiredWhen with
    | some rule =>
      if settled.get rule.key = some rule.equals && value == some (.string []) then
        [⟨field.key, field.label, s!"is needed when {labelOf rule.key} is on"⟩]
      else []
    | none => []) ++
  (match field.mustNotContain with
    | some key =>
      match value, settled.get key with
      | some (.string text), some (.string forbidden) =>
        if !text.isEmpty && !forbidden.isEmpty &&
            includes (language.lowerCase text) (language.lowerCase forbidden) then
          [⟨field.key, field.label, s!"must not contain the {labelOf key}"⟩]
        else []
      | _, _ => []
    | none => [])

/-- Every problem of some values. -/
def validateConfig (game : GameDefinition) (values : ConfigValues) : List FieldProblem :=
  let settled := (defaultsFor game).merge values
  let shown := game.config.filter fun field => settingShown game field settled
  ((values.keys.filter fun key => !game.config.any fun field => field.key == key).map
    fun key => ⟨key, key, s!"{game.name} has no setting called {key}"⟩) ++
  (shown.filterMap fun field =>
    (values.get field.key).bind fun raw =>
      (checkField language test field raw).map fun message => ⟨field.key, field.label, message⟩) ++
  shown.flatMap fun field => ruleProblems language game settled field

end Check

/-! ### Auditing definitions -/

/-- Whether a name looks like a password's: it has `pwd` in it, or a word that ends in `pass` or
in `password`. -/
def looksLikePassword (text : List Char) : Bool :=
  let ends := fun (rest : List Char) =>
    rest.head?.all fun char => !(char.isAlphanum || char == '_')
  (text.map Char.toLower).tails.any fun tail =>
    "pwd".toList.isPrefixOf tail ||
    ("password".toList.isPrefixOf tail && ends (tail.drop 8)) ||
    ("pass".toList.isPrefixOf tail && ends (tail.drop 4))

/-- The keys that several fields of one version line share. -/
def auditKeys (game : GameDefinition) : List String :=
  let lines := (game.versions.map fun version => version.line.getD "").eraseDups
  (game.config.map ConfigField.key).eraseDups.flatMap fun key =>
    let same := game.config.filter fun field => field.key == key
    if same.length < 2 then []
    else
      (lines.filter fun line =>
        1 < (same.filter fun field => field.lines.all fun some_ => some_.contains line).length).map
        fun line =>
          let name := if line.isEmpty then "(default)" else line
          s!"{game.id}: two config fields share the key {key} on line {name}"

def auditLines (game : GameDefinition) (field : ConfigField) : List String :=
  let lines := game.versions.map fun version => version.line.getD ""
  ((field.lines.getD []).filter fun line => !lines.contains line).map fun line =>
    s!"{game.id}: {field.key} names a version line \"{line}\" the game does not have"

def auditTarget (game : GameDefinition) (field : ConfigField) : List String :=
  match field.target with
  | .luaBase _ _ _ =>
    if field.type = .enum then []
    else [s!"{game.id}: {field.key} is a Lua base and has to be an enum"]
  | .lua _ _ _ also =>
    (also.filter fun extra =>
      extra.key.isEmpty || (extra.value.isNone && extra.byValue.isNone)).map fun _ =>
      s!"{game.id}: {field.key} has a companion assignment with nothing to write"
  | _ => []

/-- What the panel cannot write yet. -/
def auditJson (game : GameDefinition) (field : ConfigField) : List String :=
  match field.target with
  | .json _ _ =>
    [s!"{game.id}: {field.key} targets a JSON file, which the panel cannot write yet: a setting " ++
      "can go in an environment variable, a properties or ini file, a Lua table, a Source .cfg " ++
      "or a command-line flag"]
  | _ => []

def auditSecret (game : GameDefinition) (field : ConfigField) : List String :=
  if looksLikePassword (field.key.toList ++ ' ' :: field.label.toList) && !field.secret then
    [s!"{game.id}: {field.key} looks like a password and is not marked secret"]
  else []

/-- A variable two settings write is a part of it for each of them. -/
def auditVariables (game : GameDefinition) : List String :=
  let on := fun name => game.config.filter fun field =>
    match field.target with
    | .env other _ => other == name
    | _ => false
  let names := game.config.filterMap fun field =>
    match field.target with
    | .env name _ => some name
    | _ => none
  (names.eraseDups.filter fun name =>
    1 < ((on name).map ConfigField.key).eraseDups.length &&
      (on name).any fun field =>
        match field.target with
        | .env _ joined => !joined
        | _ => false).map fun name =>
    let keys := ", ".intercalate ((on name).map ConfigField.key).eraseDups
    s!"{game.id}: {keys} all write {name}, and not all of them as a part of it (joined)"

def auditReferences (game : GameDefinition) (field : ConfigField) : List String :=
  let others := [field.requiredWhen.map RequiredWhen.key, field.mustNotContain,
    field.shownWhen.map ShownWhen.key].filterMap id
  let missing := fun key => key != "" && !game.config.any fun other => other.key == key
  (others.filter missing).map fun key =>
    s!"{game.id}: {field.key} refers to a setting \"{key}\" it does not have"

/-- Whether a chain of settings comes back to one it has been at. -/
def comesBack (config : List ConfigField) : Nat → List String → Option ConfigField → Bool
  | 0, _, _ => true
  | _, _, none => false
  | steps + 1, seen, some field =>
    match field.shownWhen with
    | none => false
    | some rule =>
      seen.contains field.key ||
        comesBack config steps (field.key :: seen)
          (config.find? fun other => other.key == rule.key)

def auditShownWhen (language : Language) (game : GameDefinition) (field : ConfigField) : List String :=
  match field.shownWhen with
  | none => []
  | some rule =>
    let decider := game.config.find? fun other => other.key == rule.key
    (match field.target with
      | .env _ _ => []
      | .cvar _ _ => []
      | _ => [s!"{game.id}: {field.key} is shown by another setting and is not an environment " ++
        "variable or a cvar"]) ++
    (if rule.oneOf.isEmpty then [s!"{game.id}: {field.key} is shown by no value of {rule.key}"]
      else []) ++
    (match decider.bind ConfigField.options with
      | some options =>
        (rule.oneOf.filter fun value => !options.any fun option => .string option == value).map
          fun value =>
            let text := String.ofList (asText language value)
            s!"{game.id}: {field.key} is shown when {rule.key} is {text}, which it does not offer"
      | none => []) ++
    (if comesBack game.config (game.config.length + 1) [field.key] decider then
      [s!"{game.id}: {field.key} is shown by a chain of settings that comes back to itself"]
      else [])

def auditUnset (game : GameDefinition) (field : ConfigField) : List String :=
  (if field.unsetWhenEmpty then
    (match field.target with
      | .cvar _ _ => []
      | _ => [s!"{game.id}: {field.key} is taken out of its file when empty and is not a cvar"]) ++
    (if field.default = .string [] then []
      else [s!"{game.id}: {field.key} is taken out of its file when empty and does not start " ++
        "empty"])
    else []) ++
  (if field.type == .number && field.default == .string [] && !field.unsetWhenEmpty then
    [s!"{game.id}: {field.key} is a number that starts empty and is not taken out of its file " ++
      "when empty"]
    else [])

/-- What is inconsistent in a definition's settings. -/
def auditDefinition (language : Language) (game : GameDefinition) : List String :=
  auditKeys game ++
  (game.config.flatMap fun field =>
    auditLines game field ++ auditTarget game field ++ auditSecret game field) ++
  (game.config.flatMap fun field => auditJson game field) ++
  (if game.install = .download then
    [s!"{game.id}: installs from a download, which the panel does not run yet: use an image"]
    else []) ++
  auditVariables game ++
  (game.config.flatMap fun field => auditReferences game field) ++
  game.config.flatMap fun field => auditShownWhen language game field ++ auditUnset game field

end Geeboard.Games
