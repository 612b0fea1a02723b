/-
This file models how the agent unpacks an archive. The bytes come in chunks, cut
anywhere, and are read by a machine that keeps what it has not used yet: blocks of
512 bytes that head an entry, the entry's payload and its padding, metadata that
names the next entry, and the block that ends the archive.

Every call to the file system is written into a log, a write byte by byte, and is
answered by the disk from what the log holds. A file that cannot be opened says so
at a write or when it is closed. The answers do not depend on the chunks, apart
from the looks at the free space, which are made between writes, the first of them
before anything else, and each of which may fail.
-/

import Geeboard.Systems.Feeding
import Geeboard.Text.Numerals
import Geeboard.Text.Paths

namespace Geeboard.Tar

open Text Feeding

/-! ### The disk, as the unpacking meets it -/

/-- One call to the file system that took effect, a write byte by byte. -/
inductive Effect where
  | mkdir (path : Place)
  | opened (path : Place)
  | wrote (byte : UInt8)
  | closed
  deriving DecidableEq

/-- What a look at the disk tells: how much is free, and how large the disk is. -/
structure Space where
  free : Nat
  total : Nat

/-- The disk's answers, from what was done so far: the error code of a call that fails, what a
look at the space tells or the error code it fails with, and the floor set by hand. -/
structure Disk where
  mkdir : List Effect → Place → Option String
  write : List Effect → UInt8 → Option String
  close : List Effect → Option String
  space : List Effect → Except String Space
  floorBytes : Option Nat

def gib : Nat := 1024 ^ 3

def mib : Nat := 1024 ^ 2

/-- How much of a disk is kept free. -/
def floorFor (total : Nat) (given : Option Nat) : Nat :=
  given.getD (min (max (2 * gib) (total / 20)) (10 * gib))

/-- The floor at which unpacking stops, from the look that is made first. -/
def Disk.hardFloor (disk : Disk) : Nat :=
  match disk.space [] with
  | .error _ => 0
  | .ok space => min (floorFor space.total disk.floorBytes) (512 * mib)

def describeBytes (bytes : Nat) : String :=
  if gib ≤ bytes then
    let tenths := (20 * bytes + gib) / (2 * gib)
    s!"{tenths / 10}.{tenths % 10} GB"
  else s!"{max 1 ((2 * bytes + mib) / (2 * mib))} MB"

/-- Why unpacking stopped. -/
inductive Trouble where
  | system (code : String)
  | lookFailed (code : String)
  | aboutToFill (free : Nat)
  | metadataTooLarge
  | malformedHeader
  | nullByte
  | escapes (name : List Char)
  | partWay
  | noEndMarker
  deriving DecidableEq

def Trouble.text : Trouble → String
  | system code => code
  | lookFailed code => code
  | aboutToFill free => s!"the disk is about to fill ({describeBytes free} left)"
  | metadataTooLarge => "the archive has a metadata entry too large to be one"
  | malformedHeader => "the archive has a malformed extended header"
  | nullByte => "archive entry contains a null byte"
  | escapes name => s!"archive entry escapes the server directory: {String.ofList name}"
  | partWay => "the archive ended part-way through a file"
  | noEndMarker => "the archive ended without its end marker; it was cut short"

/-- A step that may stop with what was done before and a reason. -/
abbrev Fallible (Value : Type) : Type := Except (List Effect × Trouble) Value

/-! ### Names -/

/-- An entry's name, inside the directory that is unpacked into. -/
def safeJoin (root : Place) (name : List Char) : Except Trouble Place :=
  if '\x00' ∈ name then .error .nullByte
  else
    let target := root.resolve (name.dropWhile fun char => char = '/' || char = '\\')
    if target.text ≠ root.text ∧ ¬root.textWithSeparator.isPrefixOf target.text then
      .error (.escapes name)
    else .ok target

/-- Where the first record's key begins and where the record ends: none if the length in
front of it is no length. -/
def recordSpan (payload : Bytes) : Option (Nat × Nat) :=
  match payload.findIdx? (· = 0x20) with
  | none => none
  | some space =>
    match wholeNumber (ascii (payload.take space)) with
    | none => none
    | some length =>
      if (space : Int) < length ∧ length ≤ payload.length then some (space, length.toNat)
      else none

theorem recordSpan_bounds {payload : Bytes} {space length : Nat}
    (span : recordSpan payload = some (space, length)) :
    space < length ∧ length ≤ payload.length := by
  unfold recordSpan at span
  split at span
  · exact absurd span (by simp)
  · next found =>
    split at span
    · exact absurd span (by simp)
    · next whole =>
      split at span
      · next bounds =>
        obtain ⟨rfl, rfl⟩ := Prod.mk.injEq .. ▸ Option.some.inj span
        omega
      · exact absurd span (by simp)

/-- The path a record gives, if it gives one. -/
def pathOf (record : List Char) : Option (List Char) :=
  let key := record.takeWhile (· ≠ '=')
  if key.length < record.length ∧ key = "path".toList then some (record.drop (key.length + 1))
  else none

/-- The path the records of a payload give: the last one that does counts. -/
def pathRecords (payload : Bytes) (path : Option (List Char)) :
    Except Trouble (Option (List Char)) :=
  if payload = [] then .ok path
  else
    match span : recordSpan payload with
    | none => .error .malformedHeader
    | some (space, length) =>
      let record := decode ((payload.drop (space + 1)).take (length - 1 - (space + 1)))
      pathRecords (payload.drop length) ((pathOf record).or path)
  termination_by payload.length
  decreasing_by
    have bounds := recordSpan_bounds span
    rw [List.length_drop]
    omega

/-- The path a metadata entry gives the entry after it, if it gives one. -/
def nameFromMetadata (type : Char) (payload : Bytes) :
    Except Trouble (Option (List Char)) :=
  if type = 'L' then .ok (some ((decode payload).takeWhile (· ≠ '\x00')))
  else if type ≠ 'x' then .ok none
  else pathRecords payload none

/-! ### The blocks of an archive -/

/-- The size of a block. -/
def block : Nat := 512

/-- A path is a few hundred bytes; a megabyte of metadata is not a path. -/
def maxMetadataBytes : Nat := 1024 * 1024

/-- The bytes of a block from one offset to another. -/
def subarray (header : Bytes) (start stop : Nat) : Bytes :=
  (header.take stop).drop start

def nameIn (header : Bytes) : List Char :=
  cutAtNul (decode (subarray header 0 100))

def sizeIn (header : Bytes) : Int :=
  parseOctal (trimmed (cutAtNul (ascii (subarray header 124 136))))

def typeIn (header : Bytes) : Char :=
  (ascii (subarray header 156 157)).headD '\x00'

/-- Whether the header is of the kind that may split a long name. -/
def isUstar (header : Bytes) : Bool :=
  ascii (subarray header 257 262) = "ustar".toList

def prefixIn (header : Bytes) : List Char :=
  cutAtNul (decode (subarray header 345 500))

/-- What fills a payload up to a whole number of blocks. -/
def paddingAfter (size : Int) : Nat :=
  (Int.tmod (block - Int.tmod size block) block).toNat

/-- The types of the entries that describe the next one. -/
def isMetadata (type : Char) : Bool :=
  type = 'x' || type = 'g' || type = 'L'

/-- The name of the entry a header begins, with the name that metadata gave it. -/
def entryName (header : Bytes) (longName : Option (List Char)) : List Char :=
  match longName with
  | some name => name
  | none =>
    if isUstar header then
      if prefixIn header ≠ [] then prefixIn header ++ '/' :: nameIn header
      else nameIn header
    else nameIn header

/-! ### The machine -/

/-- What a payload is for. -/
inductive PayloadKind where
  | file
  | metadata (type : Char) (chunks : Bytes)
  deriving DecidableEq

/-- An entry's payload, while it is read. -/
structure Payload where
  kind : PayloadKind
  remaining : Int
  padding : Nat
  deriving DecidableEq

/-- Where the unpacking is. -/
structure Extraction where
  log : List Effect
  files : Nat
  written : Nat
  checkedAt : Nat
  pending : Bytes
  current : Option Payload
  longName : Option (List Char)
  ended : Bool
  deriving DecidableEq

/-- Where the unpacking begins. -/
def Extraction.start : Extraction where
  log := []
  files := 0
  written := 0
  checkedAt := 0
  pending := []
  current := none
  longName := none
  ended := false

/-- A chunk put behind what is not used yet. -/
def Extraction.push (state : Extraction) (chunk : Bytes) : Extraction :=
  { state with pending := state.pending ++ chunk }

section
variable (disk : Disk) (directory : Place) (checkEvery : Option Nat)

/-- Bytes handed to the open file, up to the first the disk refuses. -/
def writeBytes (log : List Effect) : Bytes → Fallible (List Effect)
  | [] => .ok log
  | byte :: rest =>
    match disk.write log byte with
    | some code => .error (log, .system code)
    | none => writeBytes (log ++ [.wrote byte]) rest

/-- Whether enough was written since the last look at the disk. -/
def lookDue (written checkedAt : Nat) : Bool :=
  match checkEvery with
  | none => false
  | some every => every ≤ written - checkedAt

/-- Why a look at the disk stops the unpacking: it fails, or the disk is about to fill. -/
def look (log : List Effect) : Option Trouble :=
  match disk.space log with
  | .error code => some (.lookFailed code)
  | .ok space => if space.free < disk.hardFloor then some (.aboutToFill space.free) else none

/-- A chunk written to the open file, and a look at the disk when one is due. -/
def put (state : Extraction) (chunk : Bytes) : Fallible Extraction :=
  match writeBytes disk state.log chunk with
  | .error stopped => .error stopped
  | .ok log =>
    let written := state.written + chunk.length
    if lookDue checkEvery written state.checkedAt then
      match look disk log with
      | some trouble => .error (log, trouble)
      | none => .ok { state with log := log, written := written, checkedAt := written }
    else .ok { state with log := log, written := written }

/-- A directory made, with the directories on the way to it. -/
def makeDirectory (log : List Effect) (path : Place) : Fallible (List Effect) :=
  match disk.mkdir log path with
  | some code => .error (log, .system code)
  | none => .ok (log ++ [.mkdir path])

/-- The open file closed. -/
def closeSink (log : List Effect) : Fallible (List Effect) :=
  match disk.close log with
  | some code => .error (log, .system code)
  | none => .ok (log ++ [.closed])

/-- A piece of the payload taken in: to the file, or to the metadata kept. -/
def receive (state : Extraction) (payload : Payload) (piece : Bytes) : Fallible Extraction :=
  let left : Int := payload.remaining - piece.length
  match payload.kind with
  | .file =>
    match put disk checkEvery state piece with
    | .error stopped => .error stopped
    | .ok next =>
      .ok { next with
        pending := state.pending.drop piece.length
        current := some { payload with remaining := left } }
  | .metadata type chunks =>
    .ok { state with
      pending := state.pending.drop piece.length
      current := some { payload with kind := .metadata type (chunks ++ piece), remaining := left } }

/-- A payload that has been read is done with once its padding is there to be skipped. -/
def finish (state : Extraction) (payload : Payload) : Fallible (Turn Extraction) :=
  if state.pending.length < payload.padding then .ok (.wait state)
  else
    let rest := state.pending.drop payload.padding
    match payload.kind with
    | .file =>
      match closeSink disk state.log with
      | .error stopped => .error stopped
      | .ok log =>
        .ok (.again
          { state with pending := rest, log := log, files := state.files + 1, current := none })
    | .metadata type chunks =>
      match nameFromMetadata type chunks with
      | .error trouble => .error (state.log, trouble)
      | .ok name =>
        .ok (.again
          { state with pending := rest, longName := name.or state.longName, current := none })

/-- The entry a header begins: what it describes is made, and its payload is next. -/
def beginEntry (state : Extraction) (header : Bytes) : Fallible (Turn Extraction) :=
  let size := sizeIn header
  if isMetadata (typeIn header) then
    if (maxMetadataBytes : Int) < size then .error (state.log, .metadataTooLarge)
    else
      .ok (.again
        { state with
          current := some ⟨.metadata (typeIn header) [], size, paddingAfter size⟩ })
  else
    match safeJoin directory (entryName header state.longName) with
    | .error trouble => .error (state.log, trouble)
    | .ok destination =>
      if typeIn header = '5' then
        match makeDirectory disk state.log destination with
        | .error stopped => .error stopped
        | .ok log => .ok (.again { state with log := log, longName := none })
      else
        match makeDirectory disk state.log destination.parent with
        | .error stopped => .error stopped
        | .ok log =>
          let log := log ++ [.opened destination]
          if size = 0 then
            match closeSink disk log with
            | .error stopped => .error stopped
            | .ok log =>
              .ok (.again { state with log := log, longName := none, files := state.files + 1 })
          else
            .ok (.again
              { state with
                log := log
                longName := none
                current := some ⟨.file, size, paddingAfter size⟩ })

/-- The next header, if it is there: a block that begins with a zero byte ends the archive,
and what is left after it is not looked at. -/
def readHeader (state : Extraction) : Fallible (Turn Extraction) :=
  if state.pending.length < block then .ok (.wait state)
  else
    let header := state.pending.take block
    if header.head? = some 0 then .ok (.wait { state with pending := [], ended := true })
    else beginEntry disk directory { state with pending := state.pending.drop block } header

/-- One turn of the machine. -/
def turn (state : Extraction) : Fallible (Turn Extraction) :=
  match state.current with
  | none => readHeader disk directory state
  | some payload =>
    if 0 < payload.remaining then
      if state.pending = [] then .ok (.wait state)
      else
        let piece := state.pending.take payload.remaining.toNat
        match receive disk checkEvery state payload piece with
        | .error stopped => .error stopped
        | .ok next =>
          match next.current with
          | none => .ok (.wait next)
          | some left =>
            if 0 < left.remaining then .ok (.wait next) else finish disk next left
    else finish disk state payload

/-- More turns than the machine takes before it waits: each uses up a header or an entry. -/
def enoughTurns (state : Extraction) : Nat :=
  2 * state.pending.length + (if state.current.isSome then 2 else 1)

/-- The unpacking, as a machine that is fed with chunks: once the archive has ended nothing
more is looked at. -/
def machine : Machine Extraction UInt8 (List Effect × Trouble) where
  turn := turn disk directory checkEvery
  push := Extraction.push
  done := Extraction.ended
  enough := enoughTurns

/-- What unpacking did and how it ended: with the number of files, or a reason. -/
structure Outcome where
  log : List Effect
  result : Except Trouble Nat
  deriving DecidableEq

/-- How unpacking ends once the source has ended. The source may break by itself after the
chunks it gave, as a compressed stream that was cut short does. -/
def conclude (broken : Option String) : Fallible Extraction → Outcome
  | .error (log, trouble) => ⟨log, .error trouble⟩
  | .ok state =>
    match broken with
    | some code => ⟨state.log, .error (.system code)⟩
    | none =>
      if state.current.isSome then ⟨state.log, .error .partWay⟩
      else if ¬state.ended then ⟨state.log, .error .noEndMarker⟩
      else ⟨state.log, .ok state.files⟩

/-- What comes after the first look. -/
def unpack (source : List Bytes) (broken : Option String) : Outcome :=
  conclude broken ((machine disk directory checkEvery).consume .start source)

/-- An archive unpacked into a directory. Nothing is done when the first look fails. -/
def extractInto (source : List Bytes) (broken : Option String) : Outcome :=
  match disk.space [] with
  | .error code => ⟨[], .error (.lookFailed code)⟩
  | .ok _ => unpack disk directory checkEvery source broken

end

end Geeboard.Tar
