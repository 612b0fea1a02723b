/-
This file merges patches into the files of games, and reads the files back.

A file is read line by line. A properties file assigns keys, an INI file assigns
keys of the section whose header came last, a Lua file assigns keys of a table by
their full name or inside the nested table, and a Source `.cfg` assigns cvars. A
merge puts the wanted values on the lines that assign them already and adds lines
for the others; whatever else the file has stays where it was.
-/

import Geeboard.Games.Render
import Geeboard.Text.Scans

namespace Geeboard.Games

open Text List

/-- A line of a file. -/
abbrev Line := List Char

/-! ### What a line is -/

/-- An assignment: the blanks before its key, the key, the sign with the blanks around it, and
the rest of the line. -/
structure Pair where
  indent : List Char
  key : List Char
  separator : List Char
  value : List Char
  deriving DecidableEq, Repr

/-- The sign of an assignment with the blanks around it, and what comes after. -/
def separatorOf (text : List Char) : Option (List Char × List Char) :=
  match text.dropWhile isSpace with
  | '=' :: rest =>
    some (text.takeWhile isSpace ++ '=' :: rest.takeWhile isSpace, rest.dropWhile isSpace)
  | _ => none

def isWordChar (char : Char) : Bool := char.isAlphanum || char == '_'

/-- An assignment to a key of these characters. -/
def pairOf (isFirst isKey : Char → Bool) (line : Line) : Option Pair :=
  let text := line.dropWhile isSpace
  let key := text.takeWhile isKey
  match separatorOf (text.dropWhile isKey) with
  | some (separator, value) =>
    if key.head?.any isFirst && value.all isPlain then
      some ⟨line.takeWhile isSpace, key, separator, value⟩
    else none
  | none => none

def isPropertyChar (char : Char) : Bool :=
  char.isAlphanum || char == '_' || char == '.' || char == '-'

/-- The assignment a line of a properties file makes. -/
def keyLine (line : Line) : Option Pair := pairOf (fun _ => true) isPropertyChar line

/-- The section a line of an INI file begins. -/
def iniHeader (line : Line) : Option (List Char) :=
  match line.dropWhile isSpace with
  | '[' :: rest =>
    let section_ := rest.takeWhile fun char => char != ']'
    match rest.dropWhile fun char => char != ']' with
    | _ :: after => if !section_.isEmpty && after.all isSpace then some section_ else none
    | [] => none
  | _ => none

/-- The assignment a line of an INI file makes. The key is what stands before the sign. -/
def iniPair (line : Line) : Option Pair :=
  let text := line.dropWhile isSpace
  let before := text.takeWhile fun char => char != '='
  let key := trimEnd before
  match text.dropWhile fun char => char != '=' with
  | _ :: rest =>
    let value := rest.dropWhile isSpace
    if key.head?.any (fun char => !(char == ';' || char == '#')) && value.all isPlain then
      some ⟨line.takeWhile isSpace, key,
        before.drop key.length ++ '=' :: rest.takeWhile isSpace, value⟩
    else none
  | [] => none

/-- The command a line of a `.cfg` is: a name, blanks, and the rest. -/
def cvarLine (line : Line) : Option Pair :=
  let text := line.dropWhile isSpace
  let name := text.takeWhile isWordChar
  let after := text.dropWhile isWordChar
  let rest := after.dropWhile isSpace
  if !name.isEmpty && after.head?.any isSpace && rest.all isPlain then
    some ⟨line.takeWhile isSpace, name, after.takeWhile isSpace, rest⟩
  else none

/-- The value a line of a `.cfg` sets, quotes and a trailing comment taken off. -/
def cvarText (rest : List Char) : List Char :=
  match rest with
  | '"' :: quoted => quoted.takeWhile fun char => char != '"'
  | _ =>
    let rec uncommented : List Char → List Char
      | '/' :: '/' :: _ => []
      | char :: text => char :: uncommented text
      | [] => []
    (uncommented rest).takeWhile fun char => !isSpace char

def isNameStart (char : Char) : Bool := char.isAlpha || char == '_'

/-- The rest of a text after another one. -/
def after (part text : List Char) : Option (List Char) :=
  if part.isPrefixOf text then some (text.drop part.length) else none

/-- A bracket that need not be there. -/
def skip (char : Char) (text : List Char) : List Char :=
  if text.head? = some char then text.tail else text

/-- The module a line of a Lua file starts a table from: the blanks before it, the table, the
module. -/
def luaBase (line : Line) : Option (List Char × List Char × List Char) :=
  let text := line.dropWhile isSpace
  let name := text.takeWhile isWordChar
  match separatorOf (text.dropWhile isWordChar) with
  | some (_, value) =>
    match after "require".toList value with
    | some rest =>
      match (skip '(' (rest.dropWhile isSpace)).dropWhile isSpace with
      | '"' :: quoted =>
        let module_ := quoted.takeWhile fun char => char != '"'
        match quoted.dropWhile fun char => char != '"' with
        | _ :: end_ =>
          if name.head?.any isNameStart &&
              (skip ')' (end_.dropWhile isSpace)).all isSpace then
            some (line.takeWhile isSpace, name, module_)
          else none
        | [] => none
      | _ => none
    | none => none
  | none => none

/-- The table a line of a Lua file opens. -/
def luaOpen (line : Line) : Option (List Char) :=
  let text := line.dropWhile isSpace
  let name := text.takeWhile isWordChar
  match separatorOf (text.dropWhile isWordChar) with
  | some (_, '{' :: rest) =>
    if name.head?.any isNameStart && rest.all isSpace then some name else none
  | _ => none

/-- Whether a line of a Lua file closes a table. -/
def luaClose (line : Line) : Bool :=
  match line.dropWhile isSpace with
  | '}' :: rest => (skip ',' rest).all isSpace
  | _ => false

/-- A line of a Lua file that assigns a name: its value without the blanks and the comma it ends
with, and the comma. -/
def luaPair (line : Line) : Option (Pair × List Char) :=
  let text := line.dropWhile isSpace
  let name := text.takeWhile isWordChar
  match separatorOf (text.dropWhile isWordChar) with
  | some (separator, value) =>
    let ended := trimEnd value
    let comma := if ended.getLast? = some ',' then [','] else []
    let literal := if ended.getLast? = some ',' then ended.dropLast else ended
    if name.head?.any isNameStart && literal.all isPlain then
      some (⟨line.takeWhile isSpace, name, separator, literal⟩, comma)
    else none
  | none => none

def isDottedChar (char : Char) : Bool := isWordChar char || char == '.'

/-- A line of a Lua file that assigns a dotted name. -/
def luaDotted (line : Line) : Option Pair :=
  let text := line.dropWhile isSpace
  let name := text.takeWhile isDottedChar
  match separatorOf (text.dropWhile isDottedChar) with
  | some (separator, value) =>
    if name.head?.any isNameStart && (trimEnd value).all isPlain then
      some ⟨line.takeWhile isSpace, name, separator, trimEnd value⟩
    else none
  | none => none

/-- The open tables after a line. -/
def luaNext (path : List (List Char)) (line : Line) : List (List Char) :=
  match luaOpen line with
  | some name => path ++ [name]
  | none => if luaClose line then path.dropLast else path

def dottedName (names : List (List Char)) : List Char := ['.'].intercalate names

/-! ### Merging -/

/-- The value each key is to have: the last one. -/
def wantedOf (entries : List Entry) : Record (List Char) (List Char) :=
  .ofEntries (entries.map fun entry => (entry.key, entry.value))

def assignment (entry : List Char × List Char) : Line := entry.1 ++ '=' :: entry.2

/-- A line of a properties file with its key's value in it, when the key has one to get. -/
def propertyLine (wanted : Record (List Char) (List Char)) (line : Line) : Line :=
  match keyLine line with
  | some pair =>
    match wanted.get pair.key with
    | some value => pair.indent ++ pair.key ++ pair.separator ++ value
    | none => line
  | none => line

/-- Merges assignments into a properties file, keeping the order and the comments. -/
def mergeProperties (existing : List Char) (entries : List Entry) : List Char :=
  let wanted := wantedOf entries
  let lines := splitLines existing
  let seen := fun key => lines.any fun line => (keyLine line).any fun pair => pair.key == key
  let added := (wanted.entries.filter fun entry => !seen entry.1).map assignment
  closed (joinLines (lines.map (propertyLine wanted) ++ added))

/-- The values to be written, by section. -/
abbrev IniWanted := Record (List Char) (Record (List Char) (List Char))

def iniWanted (entries : List Entry) : IniWanted :=
  entries.foldl
    (fun wanted entry => wanted.set entry.section_
      (((wanted.get entry.section_).getD .empty).set entry.key entry.value))
    .empty

/-- How far a merge into an INI file has come: the lines so far, the keys written in each section,
and the section it is in. -/
structure IniMerge where
  out : List Line
  written : Record (List Char) (List (List Char))
  current : List Char

/-- Adds what a section has not got yet. -/
def IniMerge.flush (wanted : IniWanted) (merge : IniMerge) : IniMerge :=
  match wanted.get merge.current with
  | none => merge
  | some keys =>
    let already := (merge.written.get merge.current).getD []
    let missing := keys.entries.filter fun entry => !already.contains entry.1
    { merge with
      out := merge.out ++ missing.map assignment
      written := merge.written.set merge.current (already ++ missing.map Prod.fst) }

def IniMerge.line (wanted : IniWanted) (merge : IniMerge) (line : Line) : IniMerge :=
  match iniHeader line with
  | some section_ =>
    { merge.flush wanted with out := (merge.flush wanted).out ++ [line], current := section_ }
  | none =>
    match iniPair line with
    | none => { merge with out := merge.out ++ [line] }
    | some pair =>
      match (wanted.get merge.current).bind fun keys => keys.get pair.key with
      | none => { merge with out := merge.out ++ [line] }
      | some value =>
        { merge with
          out := merge.out ++ [pair.indent ++ pair.key ++ pair.separator ++ value]
          written := merge.written.set merge.current
            ((merge.written.get merge.current).getD [] ++ [pair.key]) }

/-- The lines with a section that the file did not have. -/
def addSection (written : Record (List Char) (List (List Char))) (out : List Line)
    (section_ : List Char × Record (List Char) (List Char)) : List Line :=
  if written.has section_.1 then out
  else
    (if out.getLast?.any fun line => !line.isEmpty then out ++ [[]] else out) ++
      ('[' :: section_.1 ++ [']']) :: section_.2.entries.map assignment

/-- The file walked, to its end. -/
def iniWalked (wanted : IniWanted) (existing : List Char) : IniMerge :=
  ((splitLines existing).foldl (IniMerge.line wanted) ⟨[], .empty, []⟩).flush wanted

def iniMerged (existing : List Char) (entries : List Entry) : List Line :=
  let wanted := iniWanted entries
  let flushed := iniWalked wanted existing
  wanted.entries.foldl (addSection flushed.written) flushed.out

/-- Merges assignments into an INI file, section by section. -/
def mergeIni (existing : List Char) (entries : List Entry) : List Char :=
  closed (joinLines (iniMerged existing entries))

def luaFailure (message file : String) : RenderFailure :=
  ⟨message, [("step", "configure"), ("file", file)]⟩

def luaBaseLine (table module_ : List Char) : Line :=
  table ++ " = require \"".toList ++ module_ ++ ['"']

def luaDottedLine (table : List Char) (entry : List Char × List Char) : Line :=
  table ++ '.' :: entry.1 ++ " = ".toList ++ entry.2

def freshComments : List Line :=
  ["-- Written by Geeboard when this server was created: the game's own".toList,
    "-- preset, then the choices made in the panel. The game reads this file".toList,
    "-- on every start and rewrites it in full after the first one. Edit it".toList,
    "-- with the server stopped.".toList]

/-- The lines a Lua file is made with when there is none. -/
def luaFresh (table module_ : List Char) (wanted : Record (List Char) (List Char)) : List Line :=
  freshComments ++ (luaBaseLine table module_ :: wanted.entries.map (luaDottedLine table))

/-- The key of the table that a line assigns by its full name. -/
def dottedKey (table : List Char) (line : Line) : Option (Pair × List Char) :=
  (luaDotted line).bind fun pair =>
    (after (table ++ ['.']) pair.key).map fun key => (pair, key)

/-- A line of a Lua file of the shape the panel writes, with what it is to say. -/
def dottedLine (table : List Char) (base : Option (List Char))
    (wanted : Record (List Char) (List Char)) (line : Line) : Line :=
  match (luaBase line).filter fun found => found.2.1 == table with
  | some (indent, _, _) =>
    match base with
    | none => line
    | some module_ => indent ++ luaBaseLine table module_
  | none =>
    match dottedKey table line with
    | none => line
    | some (pair, key) =>
      match wanted.get key with
      | none => line
      | some value => pair.indent ++ table ++ '.' :: key ++ pair.separator ++ value

/-- The key of the table that a line assigns inside the nested table. -/
def nestedKey (table : List Char) (path : List (List Char)) (line : Line) :
    Option (Pair × List Char × List Char) :=
  if (luaOpen line).isSome || luaClose line || path.head? != some table then none
  else (luaPair line).map fun found =>
    (found.1, found.2, dottedName (path.tail ++ [found.1.key]))

/-- A line of a Lua file of the shape the game writes, with what it is to say. -/
def nestedLine (table : List Char) (wanted : Record (List Char) (List Char))
    (path : List (List Char)) (line : Line) : Line :=
  match nestedKey table path line with
  | none => line
  | some (pair, comma, key) =>
    match wanted.get key with
    | none => line
    | some value => pair.indent ++ pair.key ++ pair.separator ++ value ++ comma

def nestedLines (table : List Char) (wanted : Record (List Char) (List Char)) :
    List (List Char) → List Line → List Line
  | _, [] => []
  | path, line :: lines =>
    nestedLine table wanted path line :: nestedLines table wanted (luaNext path line) lines

/-- The keys of the table that are assigned inside the nested table. -/
def nestedKeys (table : List Char) : List (List Char) → List Line → List (List Char)
  | _, [] => []
  | path, line :: lines =>
    ((nestedKey table path line).map fun found => found.2.2).toList ++
      nestedKeys table (luaNext path line) lines

/-- A line with nothing on it, or with a comment alone. -/
def luaIdle (line : Line) : Bool :=
  let text := trimmed line
  text.isEmpty || ['-', '-'].isPrefixOf text

def isBlankLine (line : Line) : Bool := (trimmed line).isEmpty

/-- Merges assignments into whichever shape a Lua file has, or makes the file. -/
def mergeLua (existing : List Char) (entries : List Entry) (file : String) :
    Except RenderFailure (List Char) :=
  let lines := splitLines existing
  let base := (entries.find? fun entry => entry.key.isEmpty).map Entry.value
  let wanted := wantedOf (entries.filter fun entry => !entry.key.isEmpty)
  match (entries.map Entry.section_).eraseDups with
  | [table] =>
    let tableText := String.ofList table
    if lines.all luaIdle then
      match base with
      | none => .error (luaFailure s!"{tableText} has nothing to start from." file)
      | some module_ => .ok (joinLines (luaFresh table module_ wanted) ++ ['\n'])
    else if lines.any fun line => (luaBase line).isSome then
      let seen := fun key => lines.any fun line =>
        !((luaBase line).any fun found => found.2.1 == table) &&
          (dottedKey table line).any fun found => found.2 == key
      let out := (lines.map (dottedLine table base wanted)).rdropWhile isBlankLine
      let added := (wanted.entries.filter fun entry => !seen entry.1).map (luaDottedLine table)
      .ok (joinLines (out ++ added) ++ ['\n'])
    else if !lines.any fun line => luaOpen line == some table then
      .error (luaFailure s!"{file} holds no {tableText} table Geeboard understands." file)
    else if base.isSome then
      .error (luaFailure
        s!"{tableText} has already been written by the game; its preset cannot be changed now."
        file)
    else
      let found := nestedKeys table [] lines
      match wanted.keys.find? fun key => !found.contains key with
      | some missing =>
        let keyText := String.ofList missing
        .error (luaFailure s!"{file} has no {tableText}.{keyText} for Geeboard to set." file)
      | none => .ok (closed (joinLines (nestedLines table wanted [] lines)))
  | _ => .error (luaFailure "A Lua patch writes one table at a time." file)

/-- The lines a line of a `.cfg` becomes. -/
def cvarLines (language : Language) (wanted : Record (List Char) Entry) (line : Line) :
    List Line :=
  match cvarLine line with
  | none => [line]
  | some pair =>
    match wanted.get (language.lowerCase pair.key) with
    | none => [line]
    | some entry =>
      if entry.remove then []
      else [pair.indent ++ pair.key ++ pair.separator ++ '"' :: entry.value ++ ['"']]

/-- The lines of a `.cfg`, without the empty one after its last break. -/
def ownLines (existing : List Char) : List Line :=
  let lines := if existing = [] then [] else splitLines existing
  if lines.getLast? = some [] then lines.dropLast else lines

/-- The cvars a merge has to write, by their names in lower case. -/
def cvarsWanted (language : Language) (entries : List Entry) : Record (List Char) Entry :=
  .ofEntries (entries.map fun entry => (language.lowerCase entry.key, entry))

/-- The lines of a `.cfg` with each cvar set on the lines that set it already, and a line for each
that has none. -/
def cvarsMerged (language : Language) (existing : List Char) (entries : List Entry) : List Line :=
  let wanted := cvarsWanted language entries
  let lines := ownLines existing
  let seen := fun name => lines.any fun line =>
    (cvarLine line).any fun pair => language.lowerCase pair.key == name
  lines.flatMap (cvarLines language wanted) ++
    (wanted.entries.filter fun entry => !seen entry.1 && !entry.2.remove).map
      fun entry => entry.2.key ++ ' ' :: '"' :: entry.2.value ++ ['"']

/-- Sets each cvar, and takes out the lines of one to be removed. -/
def mergeCvars (language : Language) (existing : List Char) (entries : List Entry) : List Char :=
  joinLines (cvarsMerged language existing entries) ++ ['\n']

/-- Applies a patch to a file's contents, whatever its format. -/
def applyPatch (language : Language) (patch : ConfigFilePatch) (existing : List Char) :
    Except RenderFailure (List Char) :=
  match patch.format with
  | .properties => .ok (mergeProperties existing patch.entries)
  | .ini => .ok (mergeIni existing patch.entries)
  | .lua => mergeLua existing patch.entries patch.path
  | .cvar => .ok (mergeCvars language existing patch.entries)
  | .whole => .ok (patch.entries.flatMap Entry.value)
  | .json => .error
    ⟨"Geeboard cannot write JSON configuration yet.", [("step", "configure"), ("file", patch.path)]⟩

/-! ### Reading -/

/-- The last assignment of a key in a properties file. -/
def readProperty (content key : List Char) : Option (List Char) :=
  lastGiven (fun (_ : Unit) _ => ())
    (fun _ line =>
      ((keyLine line).filter fun pair => pair.key == key).map fun pair => trimmed pair.value)
    () (splitLines content)

def iniNext (current : List Char) (line : Line) : List Char := (iniHeader line).getD current

def iniGives (section_ key current : List Char) (line : Line) : Option (List Char) :=
  if (iniHeader line).isSome || current != section_ then none
  else ((iniPair line).filter fun pair => pair.key == key).map fun pair => trimmed pair.value

/-- The last assignment of a key inside a section; an empty section is the file's preamble. -/
def readIniValue (content section_ key : List Char) : Option (List Char) :=
  lastGiven iniNext (iniGives section_ key) [] (splitLines content)

/-- The value the last line of a cvar sets. -/
def readCvar (language : Language) (content name : List Char) : Option (List Char) :=
  lastGiven (fun (_ : Unit) _ => ())
    (fun _ line =>
      ((cvarLine line).filter fun pair =>
        language.lowerCase pair.key == language.lowerCase name).map fun pair =>
          cvarText pair.value)
    () (splitLines content)

def luaGives (table key : List Char) (path : List (List Char)) (line : Line) :
    Option (List Char) :=
  match (luaDotted line).filter fun pair => pair.key == table ++ '.' :: key with
  | some pair => some pair.value
  | none =>
    ((nestedKey table path line).filter fun found => found.2.2 == key).map
      fun found => found.1.value

/-- The literal a Lua file assigns to a key of a table, from either shape. -/
def luaLiteral (content table key : List Char) : Option (List Char) :=
  lastGiven luaNext (luaGives table key) [] (splitLines content)

/-- The escapes of a Lua string taken off, one kind after another. -/
def replaceAll (part by_ : List Char) (positive : part ≠ []) (text : List Char) : List Char :=
  match text with
  | [] => []
  | char :: rest =>
    if part.isPrefixOf (char :: rest) then
      by_ ++ replaceAll part by_ positive ((char :: rest).drop part.length)
    else char :: replaceAll part by_ positive rest
  termination_by text.length
  decreasing_by
    · have := length_pos_of_ne_nil positive
      simp only [length_drop, length_cons]
      omega
    · simp

/-- What a Lua literal is read as: a string unquoted, anything else as it is written. -/
def luaText (literal : List Char) : List Char :=
  let text := trimmed literal
  match text with
  | '"' :: rest =>
    if rest.getLast? = some '"' && rest.dropLast.all isPlain then
      replaceAll ['\\', '\\'] ['\\'] (cons_ne_nil _ _)
        (replaceAll ['\\', 'n'] ['\n'] (cons_ne_nil _ _)
          (replaceAll ['\\', '"'] ['"'] (cons_ne_nil _ _) rest.dropLast))
    else text
  | _ => text

/-- The module a line of a Lua file starts this table from. -/
def luaModule (table : List Char) (line : Line) : Option (List Char) :=
  ((luaBase line).filter fun found => found.2.1 == table).map fun found => found.2.2

/-- What a Lua file holds for a key of a table; with no key, the module the table starts from. -/
def readLuaValue (content table key : List Char) : Option (List Char) :=
  if key.isEmpty then (splitLines content).findSome? (luaModule table)
  else (luaLiteral content table key).map luaText

end Geeboard.Games
