/-
This file reads the files of a game back into its settings.

The panel's stored settings are what it last wrote, and a file on the node may say
something else by now. The value of each setting that lives in a file is read by
its format, the escapes of its target are taken off, and a text that the setting
cannot hold is left out. Where a value read so is another one than the stored one,
the server has drifted.
-/

import Geeboard.Games.Formats

namespace Geeboard.Games

open Text (Record isPlain isSpace trimmed)

/-! ### Escapes taken off -/

def isHex (char : Char) : Bool :=
  char.isDigit || ('a' ≤ char && char ≤ 'f') || ('A' ≤ char && char ≤ 'F')

def hexDigit (char : Char) : Nat :=
  if char.isDigit then char.toNat - 48
  else if 'a' ≤ char then char.toNat - 87
  else char.toNat - 55

/-- The character of four hexadecimal digits. -/
def hexChar (digits : List Char) : Char :=
  Char.ofNat (digits.foldl (fun value char => 16 * value + hexDigit char) 0)

/-- What a character stands for behind a backslash in a file of the Java kind. -/
def javaEscape : Char → Char
  | 't' => '\t'
  | 'n' => '\n'
  | 'r' => '\r'
  | 'f' => '\x0c'
  | char => char

/-- A value as the Java reader takes it. -/
def fromJavaProperty : List Char → List Char
  | [] => []
  | '\\' :: 'u' :: one :: two :: three :: four :: rest =>
    if [one, two, three, four].all isHex then
      hexChar [one, two, three, four] :: fromJavaProperty rest
    else 'u' :: fromJavaProperty (one :: two :: three :: four :: rest)
  | '\\' :: char :: rest =>
    if isPlain char then javaEscape char :: fromJavaProperty rest
    else '\\' :: char :: fromJavaProperty rest
  | char :: rest => char :: fromJavaProperty rest

/-- What a character stands for behind a backslash in a JSON text. -/
def jsonEscape : Char → Option Char
  | '"' => some '"'
  | '\\' => some '\\'
  | '/' => some '/'
  | 'b' => some '\x08'
  | 'f' => some '\x0c'
  | 'n' => some '\n'
  | 'r' => some '\r'
  | 't' => some '\t'
  | _ => none

def isJsonSpace (char : Char) : Bool := [' ', '\t', '\n', '\r'].contains char

/-- The rest of a JSON string behind its opening quote, when nothing else comes after it. -/
def jsonString : List Char → Option (List Char)
  | [] => none
  | '"' :: rest => if rest.all isJsonSpace then some [] else none
  | ['\\'] => none
  | '\\' :: 'u' :: one :: two :: three :: four :: rest =>
    if [one, two, three, four].all isHex then
      (jsonString rest).map (hexChar [one, two, three, four] :: ·)
    else none
  | '\\' :: char :: rest =>
    (jsonEscape char).bind fun meant => (jsonString rest).map (meant :: ·)
  | char :: rest => if char.toNat < 0x20 then none else (jsonString rest).map (char :: ·)

/-- A JSON string as its words, and any other text as it is. -/
def jsonWords : List Char → List Char
  | '"' :: rest => (jsonString rest).getD ('"' :: rest)
  | text => text

/-! ### Values -/

/-- Whether a text is one of these words, whatever the case of its letters. -/
def isOneOf (words : List String) (raw : List Char) : Bool :=
  words.any fun word => word.toList == raw.map Char.toLower

/-- A text as a value of a setting, where it can hold it. -/
def asValue (language : Language) (field : ConfigField) (raw : List Char) : Option ConfigValue :=
  match field.type with
  | .number => (language.readNumber raw).map ConfigValue.number
  | .boolean =>
    if isOneOf ["true", "1", "yes", "on"] raw then some (.boolean true)
    else if isOneOf ["false", "0", "no", "off"] raw then some (.boolean false)
    else none
  | .enum =>
    let options := field.options.getD []
    if options.contains raw then some (.string raw)
    else if (trimmed raw).isEmpty then none
    else
      match language.readNumber raw with
      | none => none
      | some value =>
        (options.find? fun option =>
          !(trimmed option).isEmpty && language.readNumber option == some value).map
            ConfigValue.string
  | .string | .text => some (.string raw)

/-- The file a setting lives in, if it is read from one. -/
def ConfigTarget.readFrom : ConfigTarget → Option String
  | .properties file _ _ _ _ => some file
  | .ini file _ _ => some file
  | .lua file _ _ _ => some file
  | .luaBase file _ _ => some file
  | .cvar file _ => some file
  | .env _ _ | .json _ _ | .arg _ => none

/-- What a file holds for a target, before it is a value. -/
def rawText (language : Language) (content : List Char) : ConfigTarget → Option (List Char)
  | .properties _ key prefix_ java json =>
    (readProperty content key).map fun text =>
      let text := if java then fromJavaProperty text else text
      let text := ((prefix_.filter fun part => part.isPrefixOf text).map fun part =>
        text.drop part.length).getD text
      if json then jsonWords text else text
  | .ini _ section_ key => readIniValue content section_ key
  | .cvar _ name => readCvar language content name
  | .lua _ table key _ => readLuaValue content table key
  | .luaBase _ table prefix_ =>
    (readLuaValue content table []).bind fun base =>
      if prefix_.isPrefixOf base then some (base.drop prefix_.length) else none
  | .env _ _ | .json _ _ | .arg _ => none

/-- A path without the slashes it starts with. -/
def clean (path : String) : String :=
  let text := path.toList
  let after := if text.head? = some '.' then text.tail else text
  if after.head? = some '/' then String.ofList (after.dropWhile (· == '/')) else path

structure ConfigFileContents where
  path : String
  content : List Char
  deriving DecidableEq, Repr

/-- What a server's files hold for a setting. -/
def readField (language : Language) (files : List ConfigFileContents) (field : ConfigField) :
    Option ConfigValue :=
  let byPath : Record String (List Char) :=
    .ofEntries (files.map fun file => (clean file.path, file.content))
  (field.target.readFrom.bind fun file => byPath.get (clean file)).bind fun content =>
    (rawText language content field.target).bind (asValue language field)

/-- The values the files on a node hold, for the settings that live in files. -/
def readConfigValues (language : Language) (game : GameDefinition)
    (files : List ConfigFileContents) : ConfigValues :=
  .ofEntries (game.config.filterMap fun field =>
    (readField language files field).map fun value => (field.key, value))

/-! ### Drift -/

structure ConfigDrift where
  key : String
  label : String
  stored : ConfigValue
  onServer : ConfigValue
  deriving DecidableEq, Repr

/-- Where a setting's files disagree with what is stored. -/
def driftOf (stored onServer : ConfigValues) (field : ConfigField) : Option ConfigDrift :=
  (onServer.get field.key).bind fun theirs =>
    let mine := (stored.get field.key).getD field.default
    if mine = .string [] || mine = theirs then none
    else some ⟨field.key, field.label, mine, theirs⟩

/-- Where the server's own files disagree with what the panel stored. -/
def configDrift (game : GameDefinition) (stored onServer : ConfigValues) : List ConfigDrift :=
  game.config.filterMap (driftOf stored onServer)

end Geeboard.Games
