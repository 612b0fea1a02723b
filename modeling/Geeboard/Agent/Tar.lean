/-
This file models how the agent writes an archive: the header blocks of an entry,
the extended header that carries a path too long for the name field, and the
blocks of a walk over a world that changes while it is read.
-/

import Geeboard.Agent.Extract

namespace Geeboard.Tar

open Text

/-! ### Headers -/

/-- A number as a header holds it: octal digits, filled up with zeros, and a NUL. -/
def octal (value : Int) (width : Nat) : List Char :=
  padStart width (inBase 8 value) ++ ['\x00']

/-- A field of a header: as much of what is written as fits, and zeros behind it. -/
def fieldOf (width : Nat) (written : Bytes) : Bytes :=
  written.take width ++ List.replicate (width - written.length) 0

/-- The fields of a header, in their order, around what stands in the checksum's field. -/
def headerWith (name : List Char) (size : Nat) (type : Char) (mode : Nat) (mtimeMs : Int)
    (checksum : List Char) : Bytes :=
  fieldOf 100 (encodeWithin 100 name) ++
    fieldOf 8 (asciiBytes (octal (mode % 0o10000 : Nat) 7)) ++
    fieldOf 8 (asciiBytes (octal 0 7)) ++
    fieldOf 8 (asciiBytes (octal 0 7)) ++
    fieldOf 12 (asciiBytes (octal size 11)) ++
    fieldOf 12 (asciiBytes (octal (mtimeMs / 1000) 11)) ++
    fieldOf 8 (asciiBytes checksum) ++
    fieldOf 1 (asciiBytes [type]) ++
    fieldOf 100 [] ++
    fieldOf 6 (asciiBytes "ustar\x00".toList) ++
    fieldOf 2 (asciiBytes "00".toList) ++
    fieldOf 247 []

/-- The sum of a block's bytes. -/
def sumOf (header : Bytes) : Nat :=
  header.foldl (fun sum byte => sum + byte.toNat) 0

/-- One header block: its checksum is computed with the checksum's own field read as
blanks. -/
def header (name : List Char) (size : Nat) (type : Char) (mode : Nat) (mtimeMs : Int) : Bytes :=
  let sum := sumOf (headerWith name size type mode mtimeMs "        ".toList)
  headerWith name size type mode mtimeMs (padStart 6 (inBase 8 sum) ++ ['\x00', ' '])

/-- How many digits a number is written with. -/
def digitCount (value : Nat) : Nat :=
  (Nat.toDigits 10 value).length

theorem digitCount_mono {small large : Nat} (le : small ≤ large) :
    digitCount small ≤ digitCount large := by
  unfold digitCount
  rw [Nat.length_toDigits_le_iff (by decide) Nat.length_toDigits_pos]
  exact lt_of_le_of_lt le ((Nat.length_toDigits_le_iff (by decide) Nat.length_toDigits_pos).mp le_rfl)

theorem digitCount_le_half (value : Nat) : digitCount value ≤ value / 2 + 1 := by
  unfold digitCount
  rw [Nat.length_toDigits_le_iff (by decide) (by omega)]
  have power : ∀ count : Nat, 2 * count + 1 < 10 ^ (count + 1) := by
    intro count
    induction count with
    | zero => decide
    | succ count inductionHypothesis =>
      rw [Nat.pow_succ]
      omega
  have bound := power (value / 2)
  omega

/-- The length of a record, which counts its own digits: it is tried until it stops changing.
Each length that is tried is at most the length of the record it would give. -/
def recordLength (body : Nat) (length : Nat) (grows : length ≤ digitCount length + body) : Nat :=
  if digitCount length + body = length then length
  else
    recordLength body (digitCount length + body)
      (Nat.add_le_add_right (digitCount_mono grows) body)
  termination_by 2 * body + 2 - length
  decreasing_by
    have few := digitCount_le_half length
    omega

/-- One record of an extended header. -/
def paxRecord (key value : List Char) : Bytes :=
  let body := ' ' :: (key ++ '=' :: (value ++ ['\n']))
  encode (Nat.toDigits 10
    (recordLength (encode body).length (encode body).length (Nat.le_add_left _ _)) ++ body)

/-- What fills bytes up to a whole number of blocks, if anything has to. -/
def remainderChunk (size : Nat) : List Bytes :=
  if size % block ≠ 0 then [List.replicate (block - size % block) 0] else []

/-- The header blocks of one entry. A path longer than the name field goes in an extended
header just before it. -/
def headers (name : List Char) (size : Nat) (type : Char) (mode : Nat) (mtimeMs : Int) :
    List Bytes :=
  (if 100 < (encode name).length then
    let record := paxRecord "path".toList name
    header "././@PaxHeader".toList record.length 'x' 0o644 mtimeMs ::
      record :: remainderChunk record.length
  else []) ++
    [header name size type mode mtimeMs]

/-! ### The walk -/

/-- What becomes of a file while it is archived: it cannot be opened, it is no file any more,
or it is read up to the size it had when it was opened, and has some size afterwards. -/
inductive Reading where
  | unopened (code : Option String)
  | notFile
  | opened (size mode : Nat) (mtimeMs : Int) (content : Bytes) (sizeAfter : Nat)

/-- What the walk yields. -/
inductive WalkedKind where
  | directory (mode : Nat) (mtimeMs : Int)
  | file (reading : Reading)

structure Walked where
  relative : List Char
  kind : WalkedKind

/-- The bytes of a file: what was read of it, and zeros for what it shrank by. -/
def contentChunks (relative : List Char) (size : Nat) (content : Bytes) (sizeAfter : Nat) :
    List Bytes × List String :=
  let streamed := content.take size
  let name := String.ofList relative
  if streamed.length < size then
    ([streamed, List.replicate (size - streamed.length) 0],
      [s!"{name} shrank while it was being archived ({size} to {streamed.length} bytes) and is padded with zeros"])
  else if size < sizeAfter then
    ([streamed],
      [s!"{name} grew while it was being archived; the archive has its first {size} bytes"])
  else ([streamed], [])

/-- The blocks of one entry of the walk, and what there is to say about it. -/
def entryChunks (entry : Walked) : List Bytes × List String :=
  let name := String.ofList entry.relative
  match entry.kind with
  | .directory mode mtimeMs => (headers (entry.relative ++ ['/']) 0 '5' mode mtimeMs, [])
  | .file (.unopened code) =>
    let reason := code.getD "it could not be opened"
    ([], [s!"{name} was skipped: {reason}"])
  | .file .notFile => ([], [s!"{name} was skipped: it is not a file any more"])
  | .file (.opened size mode mtimeMs content sizeAfter) =>
    let (chunks, warnings) := contentChunks entry.relative size content sizeAfter
    (headers entry.relative size '0' mode mtimeMs ++ chunks ++ remainderChunk size, warnings)

/-- The archive of a walk, chunk by chunk, with two zero blocks at its end. -/
def tarChunks (walk : List Walked) : List Bytes × List String :=
  ((walk.flatMap fun entry => (entryChunks entry).1) ++ [List.replicate (block * 2) 0],
    walk.flatMap fun entry => (entryChunks entry).2)

end Geeboard.Tar
