/-
This file is about what a published release says, and what that makes of the panel that
runs.

A version is three numbers, and a pre-release has identifiers behind them. The panel
reads the numbers among the identifiers as doubles. The release and its floors are
versions without identifiers.
-/

import Geeboard.Text.Json

namespace Geeboard.Panel.Releases

open Text (PlainJson memberOf)

/-! ### Versions -/

structure Parsed where
  major : Nat
  minor : Nat
  patch : Nat
  pre : List (List Char)
  deriving DecidableEq, Repr

/-- One of the three numbers of a version. -/
def isCore (digits : List Char) : Bool :=
  !digits.isEmpty && digits.length ≤ 6 && digits.all Char.isDigit

/-- What stands behind the dash or the plus of a version. -/
def isTail (tail : List Char) : Bool :=
  !tail.isEmpty && tail.length ≤ 40 &&
    tail.all fun char => char.isAlphanum || char == '.' || char == '-'

/-- A version without its build. -/
def parseFront (front : List Char) : Option Parsed :=
  let pre := front.dropWhile fun char => char != '-'
  match (front.takeWhile fun char => char != '-').splitOn '.' with
  | [major, minor, patch] =>
    if isCore major && isCore minor && isCore patch then
      match pre with
      | [] => some ⟨Text.decimal major, Text.decimal minor, Text.decimal patch, []⟩
      | _ :: tail =>
        if isTail tail then
          some ⟨Text.decimal major, Text.decimal minor, Text.decimal patch, tail.splitOn '.'⟩
        else none
    else none
  | _ => none

def parseVersion (text : List Char) : Option Parsed :=
  match (Text.trimmed text).splitOn '+' with
  | [front] => parseFront front
  | [front, build] => if isTail build then parseFront front else none
  | _ => none

/-- An identifier of digits. -/
def isNumeric (identifier : List Char) : Bool :=
  !identifier.isEmpty && identifier.all Char.isDigit

/-- The language's number of an identifier of digits: none where that is infinite. -/
def number (identifier : List Char) : Option Nat :=
  Text.wholeDouble (Text.decimal identifier) 1

/-- The sign of one number less another, which are not the same. -/
def numberLess : Option Nat → Option Nat → Int
  | some first, some second => (first : Int) - second
  | some _, none => -1
  | none, _ => 1

def compareIdentifiers (first second : List Char) : Int :=
  if isNumeric first && isNumeric second then
    if number first ≠ number second then numberLess (number first) (number second) else 0
  else if isNumeric first ≠ isNumeric second then if isNumeric first then -1 else 1
  else if first ≠ second then if first < second then -1 else 1
  else 0

/-- The identifiers of two pre-releases, one after the other. -/
def comparePre : List (List Char) → List (List Char) → Int
  | [], [] => 0
  | [], _ :: _ => -1
  | _ :: _, [] => 1
  | first :: firsts, second :: seconds =>
    if compareIdentifiers first second ≠ 0 then compareIdentifiers first second
    else comparePre firsts seconds

def compareParsed (first second : Parsed) : Int :=
  if first.major ≠ second.major then (first.major : Int) - second.major
  else if first.minor ≠ second.minor then (first.minor : Int) - second.minor
  else if first.patch ≠ second.patch then (first.patch : Int) - second.patch
  else if first.pre = [] ∧ second.pre = [] then 0
  else if first.pre = [] then 1
  else if second.pre = [] then -1
  else comparePre first.pre second.pre

/-- Below zero, zero or above it; none when either is no version. -/
def compareVersions (first second : List Char) : Option Int :=
  match parseVersion first, parseVersion second with
  | some one, some other => some (compareParsed one other)
  | _, _ => none

/-! ### What a release says of itself -/

structure Release where
  version : List Char
  date : List Char
  url : Option (List Char)
  changelog : Option (List Char)
  recommended : Bool
  securityFloor : Option (List Char)
  agentFloor : Option (List Char)
  agentSecurityFloor : Option (List Char)
  summary : Option (List Char)
  deriving DecidableEq, Repr

def MAX_TEXT : Nat := 300

section

/- An address as the language reads it, with its scheme, the name and the password in it and its
own text, and the text of a JSON value. -/
variable (readUrl : List Char → Option (List Char × List Char × List Char × List Char))
  (stringify : Option PlainJson → String)

def link (value : Option PlainJson) : Option (List Char) :=
  match value with
  | some (.string text) =>
    if MAX_TEXT < Text.utf16Length text.toList then none
    else
      match readUrl text.toList with
      | some (scheme, name, password, address) =>
        if scheme = "https:".toList ∧ name = [] ∧ password = [] then some address else none
      | none => none
  | _ => none

/-- A floor: it may be left out, and is a version without identifiers where it is not. -/
def floor (value : Option PlainJson) : Except Unit (Option (List Char)) :=
  match value with
  | none => .ok none
  | some .null => .ok none
  | some (.string text) =>
    match parseVersion text.toList with
    | some parsed => if parsed.pre = [] then .ok (some (Text.trimmed text.toList)) else .error ()
    | none => .error ()
  | _ => .error ()

/-- A floor of a release of this version. -/
def parseFloor (entries : List (String × PlainJson)) (version : List Char) (key : String) :
    Except String (Option (List Char)) :=
  match floor (memberOf entries key) with
  | .error _ => .error s!"{key} is not major.minor.patch"
  | .ok none => .ok none
  | .ok (some text) =>
    if 0 < (compareVersions text version).getD 1 then .error s!"{key} is above the release itself"
    else .ok (some text)

/-- A date as `YYYY-MM-DD`. -/
def isDate (text : List Char) : Bool :=
  match text.splitOn '-' with
  | [year, month, day] => year.length == 4 && month.length == 2 && day.length == 2 &&
      (year ++ month ++ day).all Char.isDigit
  | _ => false

/-- A text with each run of blanks as one space. -/
def squeezed : List Char → List Char
  | [] => []
  | char :: rest =>
    if Text.isSpace char then
      match rest with
      | next :: _ => if Text.isSpace next then squeezed rest else ' ' :: squeezed rest
      | [] => [' ']
    else char :: squeezed rest

/-- As much of a text as there is room for. -/
def cutTo : Nat → List Char → List Char
  | _, [] => []
  | room, char :: rest =>
    let units := Text.utf16Length [char]
    if units ≤ room then char :: cutTo (room - units) rest else []

def summaryOf (value : Option PlainJson) : Option (List Char) :=
  match value with
  | some (.string text) =>
    match cutTo MAX_TEXT (Text.trimmed (squeezed text.toList)) with
    | [] => none
    | summary => some summary
  | _ => none

def dateOf (value : Option PlainJson) : Except String (List Char) :=
  match value with
  | some (.string date) =>
    if isDate date.toList then .ok date.toList else .error "its date is not YYYY-MM-DD"
  | _ => .error "its date is not YYYY-MM-DD"

def recommendedOf (value : Option PlainJson) : Except String Bool :=
  match value with
  | none => .ok false
  | some (.bool recommended) => .ok recommended
  | _ => .error "recommended is not true or false"

/-- The file as it was read, or the reason why it is none. -/
def parseRelease (raw : PlainJson) : Except String Release :=
  match raw with
  | .object entries =>
    match memberOf entries "schema" with
    | some (.number 1) =>
      match memberOf entries "version" with
      | some (.string version) =>
        if (parseVersion version.toList).any fun parsed => parsed.pre.isEmpty then do
          let date ← dateOf (memberOf entries "date")
          let recommended ← recommendedOf (memberOf entries "recommended")
          let securityFloor ← parseFloor entries version.toList "securityFloor"
          let agentFloor ← parseFloor entries version.toList "agentFloor"
          let agentSecurityFloor ← parseFloor entries version.toList "agentSecurityFloor"
          pure {
            version := Text.trimmed version.toList
            date
            url := link readUrl (memberOf entries "url")
            changelog := link readUrl (memberOf entries "changelog")
            recommended
            securityFloor
            agentFloor
            agentSecurityFloor
            summary := summaryOf (memberOf entries "summary") }
        else .error "its version is not major.minor.patch"
      | _ => .error "its version is not major.minor.patch"
    | schema => .error s!"its schema is {stringify schema}, and this panel reads 1"
  | _ => .error "it is not a JSON object"

end

/-! ### What that makes of the panel -/

inductive PanelState where
  | current | update | recommended | security | ahead | unknown
  deriving DecidableEq, Repr

structure PanelVerdict where
  state : PanelState
  sentence : String
  deriving DecidableEq, Repr

def classifyPanel (installed : List Char) (release : Release) : PanelVerdict :=
  let here := String.ofList installed
  let newest := String.ofList release.version
  match compareVersions installed release.version with
  | none => ⟨.unknown, s!"This panel does not know which release it is ({here}), so it cannot " ++
      s!"say whether {newest} is newer."⟩
  | some order =>
    match release.securityFloor.filter fun floor =>
      decide ((compareVersions installed floor).getD 0 < 0) with
    | some floor => ⟨.security, s!"This panel is {here}, and a security problem is known in every " ++
        s!"release below {String.ofList floor}. {newest} has the fix."⟩
    | none =>
      if order < 0 then
        if release.recommended then
          ⟨.recommended, s!"{newest} is out, and the release says to take it soon. " ++
            s!"This panel is {here}."⟩
        else ⟨.update, s!"{newest} is out. This panel is {here}, and nothing is wrong with it."⟩
      else if order = 0 then ⟨.current, s!"This panel is on the newest release, {here}."⟩
      else ⟨.ahead, s!"This panel is {here}, newer than the newest release ({newest}): a build " ++
        "that has not been released."⟩

end Geeboard.Panel.Releases
