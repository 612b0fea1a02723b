/-
This file renders a game's settings into what each of their targets needs.

Variables and arguments go to the workload when it is made; what lives in a file
becomes a patch of it, the entries to merge in. A setting writes its pieces or is
left out: because the world's rules are written once, because the panel was never
given the file's line, because it is not shown, or because it is empty. What was
written before a piece decides only where it lands, so a render is the pieces of
the settings, put one after another onto what the install and the version write.
-/

import Geeboard.Games.Validation

namespace Geeboard.Games

open Text (Record)

/-! ### Patches -/

inductive Format where
  | properties | ini | json | lua | cvar | whole
  deriving DecidableEq, Repr

/-- An entry of a patch: a key's value, or the taking out of its lines. -/
structure Entry where
  section_ : List Char
  key : List Char
  value : List Char
  remove : Bool := false
  deriving DecidableEq, Repr

/-- Entries to merge into one file, leaving the rest alone. -/
structure ConfigFilePatch where
  path : String
  format : Format
  entries : List Entry
  deriving DecidableEq, Repr

structure RenderedConfig where
  env : Record String (List Char)
  files : Record String ConfigFilePatch
  args : List (List Char)
  deriving DecidableEq, Repr

/-- Why a render stops. -/
structure RenderFailure where
  message : String
  details : List (String × String)
  deriving DecidableEq, Repr

structure Mods where
  items : List (List Char)
  enabled : List (List Char)
  deriving DecidableEq, Repr

structure RenderOptions where
  includeEmpty : Bool := false
  creating : Bool := false
  stored : Option ConfigValues := none
  mods : Option Mods := none
  deriving DecidableEq, Repr

/-! ### Values as texts -/

/-- Whether a text is a number's: digits, with a sign before and a fraction behind at most. -/
def readsAsNumber (text : List Char) : Bool :=
  let unsigned := if text.head? = some '-' then text.tail else text
  let whole := unsigned.takeWhile Char.isDigit
  let rest := unsigned.dropWhile Char.isDigit
  !whole.isEmpty &&
    (rest.isEmpty || rest.head? == some '.' && !rest.tail.isEmpty && rest.tail.all Char.isDigit)

def escapeLua : Char → List Char
  | '\\' => ['\\', '\\']
  | '"' => ['\\', '"']
  | '\n' => ['\\', 'n']
  | char => [char]

/-- A value as a Lua literal. -/
def asLua (language : Language) : ConfigValue → List Char
  | .string text =>
    if readsAsNumber text then text else '"' :: text.flatMap escapeLua ++ ['"']
  | value => asText language value

/-- Whether a character may stand in a value between double quotes that cannot be escaped. -/
def isCvarChar (char : Char) : Bool :=
  !(char == '"' || char.toNat < 0x20 || char == '\x7f')

def cvarValue (text : List Char) (label : String) : Except RenderFailure (List Char) :=
  if text.all isCvarChar then .ok text
  else .error ⟨s!"{label} cannot contain a double quote or a line break.", [("field", label)]⟩

/-- A value in a file that takes a backslash as an escape and drops the blanks a value starts
with. -/
def javaProperty (text : List Char) : List Char :=
  match text.flatMap fun char => if char = '\\' then ['\\', '\\'] else [char] with
  | ' ' :: rest => '\\' :: ' ' :: rest
  | '\t' :: rest => '\\' :: 't' :: rest
  | escaped => escaped

/-- A character of a JSON text. -/
def escapeJson : Char → List Char
  | '"' => ['\\', '"']
  | '\\' => ['\\', '\\']
  | '\x08' => ['\\', 'b']
  | '\x0c' => ['\\', 'f']
  | '\n' => ['\\', 'n']
  | '\r' => ['\\', 'r']
  | '\t' => ['\\', 't']
  | char =>
    if char.toNat < 0x20 then
      ['\\', 'u', '0', '0', Nat.digitChar (char.toNat / 16), Nat.digitChar (char.toNat % 16)]
    else [char]

def jsonText (text : List Char) : List Char := '"' :: text.flatMap escapeJson ++ ['"']

/-- A properties value as the target wants it in its file. -/
def propertyText (prefix_ : Option (List Char)) (java json : Bool) (text : List Char) :
    List Char :=
  let quoted := if json && !text.isEmpty then jsonText text else text
  let prefixed := prefix_.getD [] ++ quoted
  if java then javaProperty prefixed else prefixed

/-! ### The pieces of a setting -/

/-- What a setting writes: a variable or a part of one, an argument, or an entry of a file. -/
inductive Piece where
  | env (name : String) (joined : Bool) (text : List Char)
  | arg (flag text : List Char)
  | entry (file : String) (format : Format) (entry : Entry)
  deriving DecidableEq, Repr

def ConfigTarget.inFile (target : ConfigTarget) : Bool := !target.needsRecreate

/-- A cvar's lines taken out of its file. -/
def unset : ConfigTarget → List Piece
  | .cvar file name => [.entry file .cvar ⟨[], name, [], true⟩]
  | _ => []

def ConfigTarget.isCvar : ConfigTarget → Bool
  | .cvar _ _ => true
  | _ => false

/-- A part of a variable that several settings share. -/
def ConfigTarget.isJoined : ConfigTarget → Bool
  | .env _ joined => joined
  | _ => false

section

variable (language : Language)

/-- The assignment that goes with a setting in Lua. -/
def companionPiece (game : GameDefinition) (field : ConfigField) (file : String)
    (table text : List Char) (extra : Companion) : Except RenderFailure Piece :=
  let literal := match extra.byValue with
    | some byValue => byValue.get text
    | none => extra.value
  match literal with
  | some literal => .ok (.entry file .lua ⟨table, extra.key, literal, false⟩)
  | none => .error
    ⟨s!"{field.label} has no companion value for {String.ofList text}.",
      [("gameId", game.id), ("key", field.key), ("also", String.ofList extra.key)]⟩

/-- What a shown setting with this value writes. -/
def targetPieces (game : GameDefinition) (field : ConfigField) (value : ConfigValue) :
    Except RenderFailure (List Piece) :=
  let text := asText language value
  match field.target with
  | .env name joined => .ok [.env name joined text]
  | .arg flag => .ok [.arg flag text]
  | .lua file table key also => do
    let extras ← also.mapM (companionPiece game field file table text)
    pure (.entry file .lua ⟨table, key, asLua language value, false⟩ :: extras)
  | .luaBase file table prefix_ => .ok [.entry file .lua ⟨table, [], prefix_ ++ text, false⟩]
  | .cvar file name => do
    -- The engine reads a switch as a number.
    let written := match value with
      | .boolean on => if on then ['1'] else ['0']
      | _ => text
    let quoted ← cvarValue written field.label
    pure [.entry file .cvar ⟨[], name, quoted, false⟩]
  | .properties file key prefix_ java json =>
    .ok [.entry file .properties ⟨[], key, propertyText prefix_ java json text, false⟩]
  | .ini file section_ key => .ok [.entry file .ini ⟨section_, key, text, false⟩]
  | .json file pointer => .ok [.entry file .json ⟨[], pointer, text, false⟩]

/-- The value a setting is rendered with. -/
def valueIn (values : ConfigValues) (field : ConfigField) : ConfigValue :=
  (values.get field.key).getD field.default

/-- A setting that this render leaves alone: a rule of a world that exists, or a line of a file
that the panel was never given. -/
def leftAlone (options : RenderOptions) (field : ConfigField) : Bool :=
  field.fixedAfterCreation && !options.creating ||
    (options.stored.any fun stored => !stored.has field.key) && field.target.inFile

/-- What a setting writes. -/
def fieldPieces (game : GameDefinition) (values : ConfigValues) (options : RenderOptions)
    (field : ConfigField) : Except RenderFailure (List Piece) :=
  let value := valueIn values field
  let empty := (asText language value).isEmpty
  if leftAlone options field then .ok []
  else if !settingShown game field ((defaultsFor game).merge values) then .ok (unset field.target)
  else if empty && field.unsetWhenEmpty && field.target.isCvar then
    .ok (if options.includeEmpty then unset field.target else [])
  else if empty && (!options.includeEmpty || field.target.isJoined) then .ok []
  else targetPieces language game field value

end

/-! ### The whole render -/

/-- The parts that have something in them, a blank between. -/
def joinParts (parts : List (List Char)) : List Char :=
  [' '].intercalate (parts.filter fun part => !part.isEmpty)

/-- The files with one more entry for the file; its first entry says what format it has. -/
def addEntry (files : Record String ConfigFilePatch) (path : String) (format : Format)
    (entry : Entry) : Record String ConfigFilePatch :=
  let patch := (files.get path).getD ⟨path, format, []⟩
  files.set path { patch with entries := patch.entries ++ [entry] }

def RenderedConfig.put (rendered : RenderedConfig) : Piece → RenderedConfig
  | .env name joined text =>
    let whole := if joined then joinParts [(rendered.env.get name).getD [], text] else text
    { rendered with env := rendered.env.set name whole }
  | .arg flag text => { rendered with args := rendered.args ++ [flag, text] }
  | .entry file format entry => { rendered with files := addEntry rendered.files file format entry }

/-- The variables an install writes whatever is set. -/
def InstallStrategy.env : InstallStrategy → Record String (List Char)
  | .image env _ => env
  | .steamcmd env => env
  | .download => .empty

/-- The lines an install writes whatever is set: those a new server starts with only into a new
server's file. -/
def InstallStrategy.lines (install : InstallStrategy) (creating : Bool) : List Piece :=
  match install with
  | .image _ files =>
    (files.filter fun fixed => !fixed.creating || creating).flatMap fun fixed =>
      fixed.entries.entries.map fun entry =>
        .entry fixed.file .properties ⟨[], entry.1, entry.2, false⟩
  | _ => []

/-- What a render starts from: the install's variables and lines, and the version's. -/
def beginning (game : GameDefinition) (version : Option GameVersion) (options : RenderOptions) :
    RenderedConfig :=
  let parts := version.map fun version => (version.env, version.args)
  (game.install.lines options.creating).foldl RenderedConfig.put
    ⟨(game.install.env).merge ((parts.map Prod.fst).getD .empty), .empty,
      (parts.map Prod.snd).getD []⟩

/-- A mod list that is a file of its own, whole. -/
def modFile (kind : ModFileKind) (ids : List (List Char)) : Except RenderFailure (List Char) :=
  match ids.find? fun id => !(id.all Char.isDigit && 0 < id.length && id.length ≤ 20) with
  | some bad => .error ⟨s!"{String.ofList bad} is not a Workshop id.",
      [("kind", match kind with
        | .idLines => "id-lines"
        | .luaAddWorkshop => "lua-add-workshop")]⟩
  | none =>
    match kind with
    | .idLines =>
      .ok (['\n'].intercalate ("# From the Mods tab; Apply replaces it".toList :: ids ++ [[]]))
    | .luaAddWorkshop =>
      let lines := if ids.isEmpty then ["-- Geeboard: no Workshop items".toList]
        else ids.map fun id => "resource.AddWorkshop(\"".toList ++ id ++ "\")".toList
      .ok (['\n'].intercalate ("-- From the Mods tab; Apply replaces it".toList :: lines ++ [[]]))

/-- Writes one list of mods where it goes. -/
def putMods (rendered : RenderedConfig) (list : Option ModTarget × List (List Char)) :
    Except RenderFailure RenderedConfig :=
  match list.1 with
  | none => .ok rendered
  | some (.key file key separator) =>
    .ok (rendered.put (.entry file .properties
      ⟨[], key, separator.intercalate list.2, false⟩))
  | some (.whole kind file) => do
    let content ← modFile kind list.2
    pure { rendered with
      files := rendered.files.set file ⟨file, .whole, [⟨[], [], content, false⟩]⟩ }

/-- The mods, last, so that they win over anything a setting wrote into the same keys. -/
def renderMods (game : GameDefinition) (options : RenderOptions) (rendered : RenderedConfig) :
    Except RenderFailure RenderedConfig :=
  match game.mods, options.mods with
  | some support, some mods =>
    [(some support.items, mods.items), (support.enabled, mods.enabled),
      (support.clients, mods.items)].foldlM putMods rendered
  | _, _ => .ok rendered

/-- A game's settings in the shape each of its targets needs. -/
def renderConfig (language : Language) (game : GameDefinition) (values : ConfigValues)
    (version : Option GameVersion) (options : RenderOptions) :
    Except RenderFailure RenderedConfig := do
  let pieces ← game.config.mapM (fieldPieces language game values options)
  renderMods game options (pieces.flatten.foldl RenderedConfig.put (beginning game version options))

end Geeboard.Games
