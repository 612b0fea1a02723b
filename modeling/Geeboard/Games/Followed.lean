/-
This file is about the versions of a game that are found as tags of its image.

A definition says which tags of which repository are releases of which line. What a
list of tags turns into is decided here, with no network and no database: a release
newer than the newest version the definition ships for the line is a copy of that
version with a tag of its own. A list somebody hands in is read through a filter,
and what is left stands in the definition in front of what it was copied from.
-/

import Geeboard.Games.Validation
import Geeboard.Panel.Catalogs

namespace Geeboard.Games.Follow

open Catalogs (VersionChannel)
open Panel (compareVersions compareUnits utf16Units)
open Systems
open Text (Record)

/-! ### Definitions that follow tags -/

/-- Where a version's files come from, when not from its image. -/
structure Download where
  url : String
  sha256 : Option String := none
  deriving DecidableEq, Repr

/-- A version as its definition says it. -/
structure GameVersion extends Games.GameVersion where
  formerIds : List String := []
  label : String
  upstream : Option String := none
  note : String := ""
  released : String := ""
  channel : VersionChannel := .stable
  recommended : Bool := false
  followed : Bool := false
  steamBranch : Option String := none
  download : Option Download := none
  deriving DecidableEq, Repr

/-- Which tags are releases of a line. -/
structure TagFollowLine where
  line : String
  tag : String
  deriving DecidableEq, Repr

structure TagFollow where
  repository : String
  lines : List TagFollowLine
  deriving DecidableEq, Repr

/-- A definition: its versions, the tags it follows, and all it says besides. -/
structure GameDefinition where
  base : Games.GameDefinition
  versions : List GameVersion
  followTags : Option TagFollow := none
  deriving DecidableEq, Repr

/-- The definition as the rules about settings read it. -/
def GameDefinition.whole (game : GameDefinition) : Games.GameDefinition :=
  { game.base with versions := game.versions.map GameVersion.toGameVersion }

/-- The line of a version; the one line of a game has no name. -/
def GameVersion.onLine (version : GameVersion) : String := version.line.getD ""

/-! ### Tags -/

def isWord (char : Char) : Bool := char.isAlphanum || char == '_'

/-- What a registry takes as the name of a tag. -/
def isTagName (name : String) : Bool :=
  name.toList.head?.any isWord &&
    name.toList.all (fun char => isWord char || char == '.' || char == '-') &&
    name.toList.length ≤ 128

/-- A tag as the registry lists it. -/
structure TagRecord where
  name : String
  pushedAt : Option String
  named : isTagName name = true

/-- What the named groups of a pattern matched. -/
structure TagGroups where
  version : Option String
  rebuild : Option String

/-- A tag that is a release. -/
structure Release where
  tag : String
  version : String
  rebuild : Int
  pushedAt : Option String
  deriving DecidableEq, Repr

/-- What the language does with expressions and lists, beside numbers and letters: it compiles a
pattern, when it is one, and sorts. -/
structure Engine where
  language : Language
  compile : String → Option (String → Option TagGroups)
  versions : BlindSort GameVersion
  releases : ArraySort Release

/-- A repository of the hub: an owner, a slash and a name. -/
def isRepository (repository : String) : Bool :=
  let isPart := fun (least most : Nat) (part : List Char) =>
    part.head?.any (fun char => char.isLower || char.isDigit) &&
      part.all (fun char => char.isLower || char.isDigit || ['.', '_', '-'].contains char) &&
      least ≤ part.length && part.length ≤ most
  match repository.toList.splitOn '/' with
  | [owner, name] => isPart 2 64 owner && isPart 2 128 name
  | _ => false

/-- What a game's version string looks like: two to four numbers with dots between them. -/
def isVersionString (version : String) : Bool :=
  let parts := version.toList.splitOn '.'
  2 ≤ parts.length && parts.length ≤ 4 &&
    parts.all fun part => !part.isEmpty && part.all Char.isDigit

/-- The image without its tag or digest. -/
def repositoryOf (image : String) : String :=
  let name := (image.toList.reverse.takeWhile (· != '/')).reverse
  String.ofList (image.toList.take (image.toList.length - name.length) ++
    name.takeWhile fun char => char != ':' && char != '@')

/-- The tag of an image in the repository. -/
def tagOf (image repository : String) : Option String :=
  let start := (repository ++ ":").toList
  if !start.isPrefixOf image.toList then none
  else
    let tag := (image.toList.drop start.length).takeWhile (· != '@')
    if tag.isEmpty then none else some (String.ofList tag)

section Follow

variable (engine : Engine)

/-- The pattern of a line, which has to match the whole tag. -/
def tagPattern (rule : TagFollowLine) : Option (String → Option TagGroups) :=
  engine.compile ("^(?:" ++ rule.tag ++ ")$")

/-- The number that tells two builds of a version apart. -/
def rebuildOf (groups : TagGroups) : Option Int :=
  match groups.rebuild with
  | none => some 0
  | some digits =>
    (Text.wholeNumber digits.toList).filter fun rebuild => rebuild.natAbs ≤ 2 ^ 53 - 1

def readTag (pattern : String → Option TagGroups) (tag : TagRecord) : Option Release := do
  let groups ← pattern tag.name
  let version ← groups.version.filter isVersionString
  let rebuild ← rebuildOf groups
  return { tag := tag.name, version, rebuild, pushedAt := tag.pushedAt }

/-- Whether a version can be what a followed one of the line is made from. -/
def mayLead (line : String) (version : GameVersion) : Bool :=
  !version.followed && version.supported && version.upstream.isSome && version.onLine == line

/-- Newest first, by version strings. -/
def byUpstream (without : String) (first second : GameVersion) : Int :=
  compareVersions (second.upstream.getD without) (first.upstream.getD without)

/-- The version a followed one of the line is made from. -/
def templateOf (versions : List GameVersion) (line : String) : Option GameVersion :=
  (engine.versions.sort (byUpstream "") (versions.filter (mayLead line))).head?

/-- The id of the version that follows a tag. -/
def followedId (template : GameVersion) (version : String) : String :=
  template.id ++ "-" ++
    String.ofList (version.toList.map fun char => if char = '.' then '-' else char)

/-! ### From tags to versions -/

/-- Whether a release is the better build of the version they are both of. -/
def isBetter (release other : Release) : Bool :=
  other.rebuild < release.rebuild ||
    release.rebuild == other.rebuild &&
      0 < compareUnits (utf16Units (release.pushedAt.getD "").toList)
        (utf16Units (other.pushedAt.getD "").toList)

/-- Whether a release is newer than what the definition ships. -/
def isNewer (template : GameVersion) (release : Release) : Bool :=
  0 < compareVersions release.version (template.upstream.getD "")

/-- One more tag, looked at. -/
def withTag (pattern : String → Option TagGroups) (template : GameVersion)
    (best : Record String Release) (tag : TagRecord) : Record String Release :=
  match readTag pattern tag with
  | none => best
  | some release =>
    if !isNewer template release then best
    else
      match best.get release.version with
      | none => best.set release.version release
      | some other => if isBetter release other then best.set release.version release else best

/-- The best build of each newer version. -/
def bestReleases (pattern : String → Option TagGroups) (template : GameVersion)
    (tags : List TagRecord) : Record String Release :=
  tags.foldl (withTag pattern template) .empty

/-- The ids of the versions a definition ships. -/
def shippedIds (game : GameDefinition) : List String :=
  (game.versions.filter fun version => !version.followed).map fun version => version.id

/-- A version that follows a tag: a copy of the one it is made from. The newest of its line is the
recommended one, and the one on the branch. -/
def followedVersion (follow : TagFollow) (template : GameVersion) (release : Release)
    (index : Nat) : GameVersion :=
  { id := followedId template release.version
    followed := true
    line := template.line
    label := template.label ++ " · " ++ release.version
    upstream := some release.version
    image := follow.repository ++ ":" ++ release.tag
    note := template.note
    released := (release.pushedAt.map fun pushed => String.ofList (pushed.toList.take 10)).getD
      template.released
    channel := template.channel
    recommended := template.recommended && index == 0
    supported := true
    steamBranch := if index = 0 then template.steamBranch else none
    env := template.env
    args := template.args }

/-- The versions the tags add to a line. -/
def followedOnLine (game : GameDefinition) (follow : TagFollow) (tags : List TagRecord)
    (rule : TagFollowLine) : List GameVersion :=
  match templateOf engine game.versions rule.line, tagPattern engine rule with
  | some template, some pattern =>
    if repositoryOf template.image ≠ follow.repository then []
    else
      let releases := engine.releases.sort
        (fun first second => compareVersions second.version first.version)
        ((bestReleases pattern template tags).entries.map Prod.snd)
      releases.zipIdx.filterMap fun indexed =>
        if (shippedIds game).contains (followedId template indexed.1.version) then none
        else some (followedVersion follow template indexed.1 indexed.2)
  | _, _ => []

/-- The versions the tags add to a game. -/
def followedVersions (game : GameDefinition) (tags : List TagRecord) : List GameVersion :=
  match game.followTags with
  | none => []
  | some follow => follow.lines.flatMap (followedOnLine engine game follow tags)

/-! ### Versions somebody hands in -/

/-- Those of a list that are followed versions of the game, each id once. -/
def acceptFrom (follow : TagFollow) (shipped : List String) :
    List String → List GameVersion → List GameVersion
  | _, [] => []
  | seen, version :: rest =>
    if !version.followed || shipped.contains version.id || seen.contains version.id ||
        !(follow.lines.any fun rule => rule.line == version.onLine) ||
        (tagOf version.image follow.repository).isNone then
      acceptFrom follow shipped seen rest
    else version :: acceptFrom follow shipped (version.id :: seen) rest

def acceptFollowed (game : GameDefinition) (versions : List GameVersion) : List GameVersion :=
  match game.followTags with
  | none => []
  | some follow => acceptFrom follow (shippedIds game) [] versions

/-! ### In the definition -/

/-- A version in a line whose newest is a followed one. -/
def demote (recommended onBranch : List String) (version : GameVersion) : GameVersion :=
  { version with
    recommended := version.recommended && !recommended.contains version.onLine
    steamBranch := if onBranch.contains version.onLine then none else version.steamBranch }

/-- The ids of the versions that followed ones are made from. -/
def templateIds (game : GameDefinition) : List String :=
  ((game.followTags.map TagFollow.lines).getD []).filterMap fun rule =>
    (templateOf engine game.versions rule.line).map fun template => template.id

/-- The game with its followed versions in, each in front of the version it was made from. -/
def withFollowed (game : GameDefinition) (followed : List GameVersion) : GameDefinition :=
  if followed.isEmpty then game
  else
    let recommended := (followed.filter fun version => version.recommended).map GameVersion.onLine
    let onBranch := (followed.filter fun version => version.steamBranch.isSome).map
      GameVersion.onLine
    let newestFirst := engine.versions.sort (byUpstream "0") followed
    { game with
      versions := game.versions.flatMap fun version =>
        (if (templateIds engine game).contains version.id then
          newestFirst.filter fun other => other.onLine == version.onLine else []) ++
        [demote recommended onBranch version] }

/-! ### The audit -/

/-- The versions whose id an earlier one has. -/
def auditIds (game : GameDefinition) : List String → List GameVersion → List String
  | _, [] => []
  | seen, version :: rest =>
    (if seen.contains version.id then [s!"{game.base.id}: duplicate version {version.id}"]
      else []) ++
      auditIds game (version.id :: seen) rest

/-- The former ids that are an id still, or another version's. -/
def auditFormerIds (game : GameDefinition) : List String → List String → List String
  | _, [] => []
  | seen, id :: rest =>
    (if game.versions.any fun version => version.id == id then
      [s!"{game.base.id}: former id {id} is still a version id"] else []) ++
    (if seen.contains id then [s!"{game.base.id}: two versions claim former id {id}"] else []) ++
      auditFormerIds game (id :: seen) rest

/-- What is wrong with the line of a rule. -/
def lineProblems (game : GameDefinition) (follow : TagFollow) (rule : TagFollowLine) :
    List String :=
  (match templateOf engine game.versions rule.line with
    | none =>
      [s!"{game.base.id}: followTags follows the line \"{rule.line}\", which has no version " ++
        "that is installed and says its version"]
    | some template =>
      if repositoryOf template.image ≠ follow.repository then
        [s!"{game.base.id}: the line \"{rule.line}\" is in {repositoryOf template.image}, " ++
          s!"not in {follow.repository}"]
      else []) ++
  if (tagPattern engine rule).isNone then
    [s!"{game.base.id}: the tag pattern of \"{rule.line}\" is not a regular expression"]
  else if !(rule.tag.toList.tails.any fun tail => "(?<version>".toList.isPrefixOf tail) then
    [s!"{game.base.id}: the tag pattern of \"{rule.line}\" has no (?<version>…) group"]
  else []

def ruleProblems (game : GameDefinition) (follow : TagFollow) :
    List String → List TagFollowLine → List String
  | _, [] => []
  | seen, rule :: rest =>
    (if seen.contains rule.line then
      [s!"{game.base.id}: followTags follows the line \"{rule.line}\" twice"] else []) ++
      lineProblems engine game follow rule ++ ruleProblems game follow (rule.line :: seen) rest

/-- What is wrong with a follow rule. -/
def followProblems (game : GameDefinition) (follow : TagFollow) : List String :=
  (if !isRepository follow.repository then
    [s!"{game.base.id}: followTags names \"{follow.repository}\", which is not a Docker Hub " ++
      "repository"] else []) ++
  (if follow.lines.isEmpty then [s!"{game.base.id}: followTags follows no line"] else []) ++
  ruleProblems engine game follow [] follow.lines

/-- What is inconsistent in a definition's versions, in the tags it follows, and in its settings. -/
def auditDefinition (game : GameDefinition) : List String :=
  auditIds game [] game.versions ++
  auditFormerIds game [] (game.versions.flatMap GameVersion.formerIds) ++
  (if game.versions.isEmpty then [s!"{game.base.id}: no versions"] else []) ++
  (match game.followTags with
    | none => []
    | some follow => followProblems engine game follow) ++
  Games.auditDefinition engine.language game.whole

end Follow

end Geeboard.Games.Follow
