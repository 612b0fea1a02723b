/-
This file models the restore of an archive over a server's directory, as the
agent carries it out.

A restore checks the archive and the room for it first. The ordinary mode then
unpacks beside the world and exchanges the two by rename; the in-place mode
removes the world first, for a node with no room for two copies. Every branch
that ends in an error is here with the error it raises, because which code the
error carries is what the panel acts on.
-/

import Geeboard.Agent.Disk

namespace Geeboard.Agent

open Effects Code

/-! ### The file system -/

def stat (label : Label) (path : Path) : AgentCode Nat := request label (.stat path)

def digest (label : Label) (path : Path) : AgentCode String := request label (.digest path)

def statfs (label : Label) : AgentCode Space := request label .statfs

/-- The bytes of a directory. It never fails: one that cannot be opened counts nothing. -/
def directorySize (label : Label) (path : Path) : AgentCode Nat := do
  match ← (request label (.directorySize path)).attempt with
  | .ok bytes => pure bytes
  | .error _ => pure 0

def mkdir (label : Label) (path : Path) : AgentCode Unit := request label (.mkdir path)

def extractInto (label : Label) (into archive : Path) : AgentCode Nat :=
  request label (.extract into archive)

def rename (label : Label) (source destination : Path) : AgentCode Unit :=
  request label (.rename source destination)

def rm (label : Label) (path : Path) : AgentCode Unit := request label (.remove path)

def openFile (label : Label) (path : Path) : AgentCode Unit := request label (.open_ path)

def readTail (label : Label) (path : Path) : AgentCode Nat := request label (.readTail path)

def closeFile (label : Label) (path : Path) : AgentCode Unit := request label (.close path)

def readdir (label : Label) (path : Path) : AgentCode (List String) := request label (.readdir path)

def newest (label : Label) (path : Path) : AgentCode Nat := request label (.newest path)

section Ran

variable (faults : Faults) (label : Label) (path other : Path) (disk : Disk)

@[simp] theorem ran_stat :
    ran faults (stat label path) disk = answer (faults [label]) (.stat path) disk := rfl

@[simp] theorem ran_digest :
    ran faults (digest label path) disk = answer (faults [label]) (.digest path) disk := rfl

@[simp] theorem ran_statfs :
    ran faults (statfs label) disk = answer (faults [label]) .statfs disk := rfl

@[simp] theorem ran_mkdir :
    ran faults (mkdir label path) disk = answer (faults [label]) (.mkdir path) disk := rfl

@[simp] theorem ran_extractInto :
    ran faults (extractInto label path other) disk =
      answer (faults [label]) (.extract path other) disk := rfl

@[simp] theorem ran_rename :
    ran faults (rename label path other) disk =
      answer (faults [label]) (.rename path other) disk := rfl

@[simp] theorem ran_rm :
    ran faults (rm label path) disk = answer (faults [label]) (.remove path) disk := rfl

@[simp] theorem ran_openFile :
    ran faults (openFile label path) disk = answer (faults [label]) (.open_ path) disk := rfl

@[simp] theorem ran_readTail :
    ran faults (readTail label path) disk = answer (faults [label]) (.readTail path) disk := rfl

@[simp] theorem ran_closeFile :
    ran faults (closeFile label path) disk = answer (faults [label]) (.close path) disk := rfl

@[simp] theorem ran_readdir :
    ran faults (readdir label path) disk = answer (faults [label]) (.readdir path) disk := rfl

@[simp] theorem ran_newest :
    ran faults (newest label path) disk = answer (faults [label]) (.newest path) disk := rfl

end Ran

/-! ### Names and room -/

def isIdChar (char : Char) : Bool := char.isAlphanum || char == '_' || char == '-'

/-- A server id that may become a path segment. -/
def validServerId (serverId : String) : Bool :=
  let chars := serverId.toList
  0 < chars.length && chars.length ≤ 128 && chars.all isIdChar

def isArtifactChar (char : Char) : Bool := isIdChar char || char == '.'

def containsTwoDots : List Char → Bool
  | '.' :: '.' :: _ => true
  | _ :: rest => containsTwoDots rest
  | [] => false

/-- An archive name the agent accepts: a letter or a digit, at most 120 more characters, and
the extension, without two dots in a row. -/
def validArtifact (artifact : String) : Bool :=
  let chars := artifact.toList
  let stem := chars.take (chars.length - 7)
  chars.drop (chars.length - 7) == ".tar.gz".toList && 0 < stem.length && stem.length ≤ 121 &&
    (stem.take 1).all Char.isAlphanum && stem.all isArtifactChar && !containsTwoDots chars

def rootFor (serverId : String) : AgentCode Path :=
  if validServerId serverId then pure [serverId] else throw (.path "invalid server id")

def backupRoot (serverId : String) : AgentCode Path := do
  let root ← rootFor serverId
  pure (".backups" :: root)

def artifactPath (serverId artifact : String) : AgentCode Path :=
  if validArtifact artifact then do
    let folder ← backupRoot serverId
    pure (folder ++ [artifact])
  else throw (.path "that is not a valid archive name")

def MIB : Nat := 1024 * 1024

def GIB : Nat := 1024 * 1024 * 1024

/-- What is kept free on the disk: a twentieth of it, at least 2 GiB and at most 10, unless a
figure was set by hand. -/
def floorFor (given : Option Nat) (total : Nat) : Nat :=
  given.getD (min (max (2 * GIB) (total / 20)) (10 * GIB))

/-- A number of tenths, written with one decimal. -/
def tenths (count : Nat) : String := s!"{count / 10}.{count % 10}"

def describeBytes (bytes : Nat) : String :=
  if GIB ≤ bytes then s!"{tenths ((20 * bytes + GIB) / (2 * GIB))} GB"
  else s!"{max 1 ((2 * bytes + MIB) / (2 * MIB))} MB"

def lowered (text : String) : List Char := text.toList.map Char.toLower

def mentions (phrase : List Char) : List Char → Bool
  | [] => phrase.isEmpty
  | char :: rest => phrase.isPrefixOf (char :: rest) || mentions phrase rest

def describeFailure : Failure → String
  | .system code message =>
    if code == "Z_BUF_ERROR" || mentions "unexpected end of file".toList (lowered message) then
      "the archive is cut short"
    else if code == "ENOSPC" then "the disk is full"
    else message
  | error =>
    if mentions "unexpected end of file".toList (lowered error.message) then
      "the archive is cut short"
    else error.message

/-- The error of a restore that has left the world alone. -/
def untouched (message : String) : Failure :=
  .backup s!"{message}. Nothing was changed: the world on this node is exactly as it was"
    (some .untouched)

/-! ### The restore -/

inductive RestoreMode where
  | swapped
  | inPlace
  deriving DecidableEq, Repr

structure RestoreResult where
  files : Nat
  mode : RestoreMode
  deriving DecidableEq, Repr

/-- What a restore is asked for, with the suffix its directories are given and the figure set
for the room to keep. -/
structure RestoreRequest where
  serverId : String
  artifact : String
  expectedChecksum : Option String
  inPlace : Bool
  suffix : String
  floorGiven : Option Nat
  deriving DecidableEq, Repr

def stagingOf (serverId suffix : String) : String := serverId ++ ".restoring-" ++ suffix

def asideOf (serverId suffix : String) : String := serverId ++ ".replaced-" ++ suffix

/-- The digest of an archive, recomputed. -/
def verifyArchive (serverId artifact : String) : AgentCode String := do
  let target ← artifactPath serverId artifact
  match ← (stat .statArchive target).attempt with
  | .error _ => throw (.notFound "no such archive")
  | .ok _ => digest .readArchive target

/-- The uncompressed size an archive claims, never less than the archive's own. -/
def uncompressedSizeOf (file : Path) (compressed : Nat) : AgentCode Nat := do
  openFile .openArchive file
  finally_ (do
      let tail ← readTail .readTail file
      pure (max tail compressed))
    (closeFile .closeArchive file)

/-- The end of a failed exchange: the staging directory goes, and the error says whether the
old world was put back. -/
def notExchanged (serverId suffix : String) (error : Failure) (restored : Bool) :
    AgentCode RestoreResult := do
  rm .clearStaging [stagingOf serverId suffix]
  if restored then
    throw (untouched
      s!"the restored world could not be put in place ({describeFailure error})")
  else
    throw (.backup
      s!"the restored world could not be put in place and the previous one could not be put back ({describeFailure error}); it is at {asideOf serverId suffix}"
      (some .incomplete))

/-- The exchange of the world for the unpacked one, by two renames. When it fails, what was
set aside is put back; the old world is the last thing to go. -/
def exchange (serverId suffix : String) (files : Nat) : AgentCode RestoreResult := do
  let root : Path := [serverId]
  let staging : Path := [stagingOf serverId suffix]
  let aside : Path := [asideOf serverId suffix]
  let hadWorld ← (stat .statBefore root).succeeded
  let exchanged ← attempt do
    whenever hadWorld (rename .setAside root aside)
    rename .exchange staging root
  match exchanged with
  | .error error => do
    let restored ← if hadWorld then (rename .putBack aside root).succeeded else pure true
    notExchanged serverId suffix error restored
  | .ok () => do
    whenever hadWorld do
      let _ ← (rm .dropAside aside).attempt
    pure { files, mode := .swapped }

/-- The restore beside the world: the archive is unpacked whole before anything is moved. -/
def restoreSwapped (serverId suffix : String) (target : Path) : AgentCode RestoreResult := do
  let staging : Path := [stagingOf serverId suffix]
  let unpacked ← attempt do
    mkdir .makeStaging staging
    extractInto .unpack staging target
  match unpacked with
  | .error error => do
    rm .dropStaging staging
    throw (untouched (describeFailure error))
  | .ok files => exchange serverId suffix files

def restoreInPlace (serverId : String) (target : Path) : AgentCode RestoreResult := do
  let root : Path := [serverId]
  rm .emptyWorld root
  mkdir .makeWorld root
  match ← (extractInto .unpack root target).attempt with
  | .ok files => pure { files, mode := .inPlace }
  | .error error =>
    throw (.backup
      s!"{describeFailure error}. The world on this node was removed before the restore began, so what is on disk is incomplete: restore again (the archive is untouched) before starting the server"
      (some .incomplete))

/-- The sentence that refuses a restore for want of room. -/
def noRoom (request : RestoreRequest) (present : Bool) (needed floor free world : Nat) :
    String :=
  let beside := if present then
    " beside the current world, which is replaced only once the archive has unpacked completely"
    else ""
  let inPlace := present && free + world ≥ needed + min floor (512 * MIB)
  let hint := if inPlace then
    "Free some space, or restore in place, which removes the world first and leaves it incomplete if the restore then fails"
    else "Free some space first"
  if request.inPlace then
    s!"restoring needs about {describeBytes needed} and even without the current world the node would have {describeBytes (free + world)}; free some space first"
  else
    s!"restoring needs about {describeBytes (needed + floor)}{beside}, including {describeBytes floor} kept free; the node has {describeBytes free} free. {hint}"

/-- The size of the current world, when there is one. -/
def worldSize (root : Path) (present : Bool) : AgentCode Nat :=
  if present then directorySize .worldSize root else pure 0

/-- The checks of an archive before anything is touched: it is there, and it is the one that
was recorded. Its size is handed on. -/
def checkArchive (request : RestoreRequest) (target : Path) : AgentCode Nat := do
  match ← (stat .statArchive target).attempt with
  | .error _ => throw (untouched "no such archive on this node")
  | .ok size => do
    match request.expectedChecksum.filter (· ≠ "") with
    | none => pure ()
    | some expected => do
      let checksum ← step .checksum (verifyArchive request.serverId request.artifact)
      if checksum == expected then pure ()
      else throw (untouched
        "the archive does not match the checksum recorded when it was made; refusing to restore it")
    pure size

/-- The restore of an archive that passed: the room for it is looked at, and then the mode
that was asked for is entered. -/
def restoreChecked (request : RestoreRequest) (target root : Path) (size : Nat) :
    AgentCode RestoreResult := do
  let needed ← uncompressedSizeOf target size
  let present ← (stat .statWorld root).succeeded
  let space ← statfs .space
  let floor := floorFor request.floorGiven space.total
  if request.inPlace then do
    let world ← worldSize root present
    if space.free + world < needed + min floor (512 * MIB) then
      throw (untouched (noRoom request present needed floor space.free world))
    else restoreInPlace request.serverId target
  else if space.free < needed + floor then do
    let world ← worldSize root present
    throw (untouched (noRoom request present needed floor space.free world))
  else restoreSwapped request.serverId request.suffix target

def restoreArchive (request : RestoreRequest) : AgentCode RestoreResult := do
  let target ← artifactPath request.serverId request.artifact
  let root ← rootFor request.serverId
  let size ← checkArchive request target
  restoreChecked request target root size

end Geeboard.Agent
