/-
This file is about the console stream of a container.

Docker sends what a container prints in frames: a header of eight bytes, with the
stream in the first and the length of the payload in the last four, and then the
payload. Every string of bytes is a sequence of frames and the beginning of one more
that has not come to its end. The reader of a followed stream gets the string in
chunks that end anywhere, keeps what it has of the unfinished frame, and calls with
the lines of the others: the lines that the whole string has.
-/

import Geeboard.Text.Lines
import Geeboard.Text.Utf8

namespace Geeboard.Agent.Console

open List
open Text (Bytes)

/-! ### The readers -/

/-- A call with a line of the console: the line, and whether it came as an error. -/
structure Call where
  line : List Char
  stderr : Bool
  deriving DecidableEq, Repr

/-- The number that the four bytes from an offset on are, the highest first. -/
def readUInt32BE (bytes : Bytes) (offset : Nat) : Nat :=
  ((bytes.drop offset).take 4).foldl (fun number byte => number * 256 + byte.toNat) 0

/-- The calls that a payload makes. -/
def callsOf (payload : Bytes) (stderr : Bool) : List Call :=
  ((Text.splitLines (Text.decode payload)).filter fun line => 0 < line.length).map
    fun line => ⟨line, stderr⟩

/-- The frames of a chunk from an offset on: the calls they make, and where the first frame
begins that is not whole. -/
def demultiplexFrom (chunk : Bytes) (offset : Nat) : List Call × Nat :=
  if offset + 8 ≤ chunk.length then
    let stderr := chunk[offset]? == some 2
    let length := readUInt32BE chunk (offset + 4)
    let start := offset + 8
    let end_ := start + length
    if chunk.length < end_ then ([], offset)
    else
      let called := callsOf ((chunk.take end_).drop start) stderr
      let rest := demultiplexFrom chunk end_
      (called ++ rest.1, rest.2)
  else ([], offset)
termination_by chunk.length - offset

def demultiplex (chunk : Bytes) : List Call × Nat := demultiplexFrom chunk 0

/-- What a reader has done so far, and the bytes it keeps for the next chunk. -/
structure FrameReader where
  calls : List Call := []
  pending : Bytes := []
  deriving DecidableEq, Repr

def frameReader (reader : FrameReader) (chunk : Bytes) : FrameReader :=
  let buffer := if 0 < reader.pending.length then reader.pending ++ chunk else chunk
  let whole := demultiplex buffer
  { calls := reader.calls ++ whole.1, pending := buffer.drop whole.2 }

/-! ### Frames -/

/-- A frame: its header, and a payload of the length the header says. -/
structure Frame where
  header : Bytes
  payload : Bytes
  eight : header.length = 8
  sized : payload.length = readUInt32BE header 4

def Frame.bytes (frame : Frame) : Bytes := frame.header ++ frame.payload

/-- The calls a frame makes. -/
def Frame.calls (frame : Frame) : List Call :=
  callsOf frame.payload (frame.header[0]? == some 2)

/-- The bytes of frames, one after another. -/
def bytesOf (frames : List Frame) : Bytes := frames.flatMap Frame.bytes

/-- The beginning of a frame, and not all of it. -/
def Unfinished (bytes : Bytes) : Prop :=
  ∃ frame : Frame, bytes <+: frame.bytes ∧ bytes ≠ frame.bytes

@[simp]
theorem bytesOf_cons (frame : Frame) (frames : List Frame) :
    bytesOf (frame :: frames) = frame.bytes ++ bytesOf frames := rfl

@[simp]
theorem bytesOf_append (first second : List Frame) :
    bytesOf (first ++ second) = bytesOf first ++ bytesOf second :=
  flatMap_append

theorem Frame.length_bytes (frame : Frame) :
    frame.bytes.length = 8 + readUInt32BE frame.header 4 := by
  unfold Frame.bytes
  rw [length_append, frame.eight, frame.sized]

/-- A number is read from its four bytes alone, wherever they stand. -/
theorem readUInt32BE_middle (front header rest : Bytes) (eight : header.length = 8) :
    readUInt32BE (front ++ (header ++ rest)) (front.length + 4) = readUInt32BE header 4 := by
  unfold readUInt32BE
  rw [drop_append, drop_of_length_le (by omega), nil_append,
    Nat.add_sub_cancel_left, drop_append_of_le_length (by omega),
    take_append_of_le_length (by rw [length_drop]; omega)]

/-! ### What demultiplex reads -/

/-- A whole frame makes its calls, and the reading goes on behind it. -/
theorem demultiplexFrom_frame (front rest : Bytes) (frame : Frame) :
    demultiplexFrom (front ++ (frame.bytes ++ rest)) front.length =
      (frame.calls ++ (demultiplexFrom (front ++ frame.bytes ++ rest)
        (front ++ frame.bytes).length).1,
        (demultiplexFrom (front ++ frame.bytes ++ rest) (front ++ frame.bytes).length).2) := by
  have size := frame.length_bytes
  have eight := frame.eight
  have first : (front ++ (frame.bytes ++ rest))[front.length]? = frame.header[0]? := by
    rw [getElem?_append_right (Nat.le_refl _), Nat.sub_self]
    unfold Frame.bytes
    rw [append_assoc, getElem?_append_left (by omega)]
  have length : readUInt32BE (front ++ (frame.bytes ++ rest)) (front.length + 4) =
      readUInt32BE frame.header 4 := by
    unfold Frame.bytes
    rw [append_assoc]
    exact readUInt32BE_middle front frame.header _ eight
  have end_ : front.length + 8 + readUInt32BE frame.header 4 = (front ++ frame.bytes).length := by
    rw [length_append]
    omega
  have payload : ((front ++ (frame.bytes ++ rest)).take (front ++ frame.bytes).length).drop
      (front.length + 8) = frame.payload := by
    rw [← append_assoc, take_left]
    unfold Frame.bytes
    rw [← append_assoc, ← eight, ← length_append, drop_left]
  have long : (front ++ (frame.bytes ++ rest)).length =
      (front ++ frame.bytes).length + rest.length := by
    rw [← append_assoc, length_append]
  conv => lhs; unfold demultiplexFrom
  dsimp only
  rw [if_pos (by omega), length, end_, if_neg (by omega), first, payload]
  simp only [Frame.calls, append_assoc]

/-- Where no more than a beginning of a frame is left, the reading stops. -/
theorem demultiplexFrom_unfinished (front tail : Bytes) (unfinished : Unfinished tail) :
    demultiplexFrom (front ++ tail) front.length = ([], front.length) := by
  obtain ⟨frame, begins, other⟩ := unfinished
  have size := frame.length_bytes
  have shorter : tail.length < frame.bytes.length :=
    Nat.lt_of_le_of_ne begins.length_le fun same => other (begins.eq_of_length same)
  have whole : (front ++ tail).length = front.length + tail.length := length_append
  unfold demultiplexFrom
  dsimp only
  split
  · next eight =>
    obtain ⟨rest, split⟩ := begins
    have header : tail = frame.header ++ tail.drop 8 := by
      have same := congrArg (List.take 8) split
      unfold Frame.bytes at same
      rw [take_append_of_le_length (by omega), ← frame.eight, take_left] at same
      conv => lhs; rw [← take_append_drop frame.header.length tail, same, frame.eight]
    have length : readUInt32BE (front ++ tail) (front.length + 4) =
        readUInt32BE frame.header 4 := by
      rw [header]
      exact readUInt32BE_middle front frame.header _ frame.eight
    rw [length, if_pos (by omega)]
  · rfl

/-- The frames of a string make their calls, whatever comes behind them. -/
theorem demultiplexFrom_frames (front : Bytes) (frames : List Frame) (tail : Bytes)
    (unfinished : Unfinished tail) :
    demultiplexFrom (front ++ (bytesOf frames ++ tail)) front.length =
      (frames.flatMap Frame.calls, front.length + (bytesOf frames).length) := by
  induction frames generalizing front with
  | nil => exact demultiplexFrom_unfinished front tail unfinished
  | cons frame frames inductionHypothesis =>
    rw [bytesOf_cons, append_assoc, demultiplexFrom_frame, append_assoc,
      ← append_assoc, inductionHypothesis, flatMap_cons]
    simp only [length_append, Nat.add_assoc]

/-- What demultiplex makes of a string of frames: their calls, and where the unfinished one
begins. -/
theorem demultiplex_frames (frames : List Frame) (tail : Bytes) (unfinished : Unfinished tail) :
    demultiplex (bytesOf frames ++ tail) =
      (frames.flatMap Frame.calls, (bytesOf frames).length) := by
  have read := demultiplexFrom_frames [] frames tail unfinished
  rw [length_nil, Nat.zero_add] at read
  exact read

/-! ### Every string is frames -/

/-- A header and what there is of its payload, when that is not all of it. -/
theorem unfinished_of_header (header begun : Bytes) (eight : header.length = 8)
    (short : begun.length < readUInt32BE header 4) : Unfinished (header ++ begun) := by
  let missing : Bytes := List.replicate (readUInt32BE header 4 - begun.length) 0
  have some_ : 0 < missing.length := by
    rw [length_replicate]
    omega
  refine ⟨⟨header, begun ++ missing, eight, ?_⟩, ⟨missing, ?_⟩, fun same => ?_⟩
  · rw [length_append, length_replicate]
    omega
  · exact append_assoc _ _ _
  · have lengths := congrArg List.length same
    simp only [Frame.bytes, length_append] at lengths
    omega

/-- What is shorter than a header. -/
theorem unfinished_of_short (bytes : Bytes) (short : bytes.length < 8) : Unfinished bytes := by
  let header : Bytes := bytes ++ List.replicate (8 - bytes.length) 0
  have eight : header.length = 8 := by
    rw [length_append, length_replicate]
    omega
  refine ⟨⟨header, List.replicate (readUInt32BE header 4) 0, eight, length_replicate⟩,
    ⟨List.replicate (8 - bytes.length) 0 ++ List.replicate (readUInt32BE header 4) 0, ?_⟩,
    fun same => ?_⟩
  · exact (append_assoc _ _ _).symm
  · have lengths := congrArg List.length same
    rw [Frame.length_bytes] at lengths
    omega

/-- Every string of bytes is a sequence of frames and one that is not finished. -/
theorem exists_frames (bytes : Bytes) :
    ∃ frames tail, bytes = bytesOf frames ++ tail ∧ Unfinished tail := by
  induction long : bytes.length using Nat.strongRecOn generalizing bytes with
  | ind size inductionHypothesis =>
    by_cases short : bytes.length < 8
    · exact ⟨[], bytes, rfl, unfinished_of_short bytes short⟩
    · have eight : (bytes.take 8).length = 8 := by
        rw [length_take]
        omega
      have header : bytes = bytes.take 8 ++ bytes.drop 8 := (take_append_drop 8 bytes).symm
      by_cases whole : (bytes.drop 8).length < readUInt32BE (bytes.take 8) 4
      · refine ⟨[], bytes, rfl, ?_⟩
        rw [header]
        exact unfinished_of_header _ _ eight whole
      · let length := readUInt32BE (bytes.take 8) 4
        have sized : ((bytes.drop 8).take length).length = length := by
          rw [length_take]
          omega
        have fewer : ((bytes.drop 8).drop length).length < size := by
          simp only [length_drop]
          omega
        obtain ⟨frames, tail, split, unfinished⟩ :=
          inductionHypothesis _ fewer ((bytes.drop 8).drop length) rfl
        refine ⟨⟨bytes.take 8, (bytes.drop 8).take length, eight, sized⟩ :: frames, tail, ?_,
          unfinished⟩
        rw [bytesOf_cons, append_assoc, ← split]
        show bytes = (bytes.take 8 ++ (bytes.drop 8).take length) ++ (bytes.drop 8).drop length
        rw [append_assoc, take_append_drop, take_append_drop]

/-! ### Chunks -/

/-- What a reader has done is what the frames that came make, and it keeps the unfinished one. -/
def Reads (reader : FrameReader) (came : Bytes) : Prop :=
  ∃ frames : List Frame, came = bytesOf frames ++ reader.pending ∧ Unfinished reader.pending ∧
    reader.calls = frames.flatMap Frame.calls

theorem reads_nothing : Reads {} [] :=
  ⟨[], rfl, unfinished_of_short [] (by decide), rfl⟩

/-- A chunk more, wherever it was cut. -/
theorem reads_frameReader {reader : FrameReader} {came : Bytes} (reads : Reads reader came)
    (chunk : Bytes) : Reads (frameReader reader chunk) (came ++ chunk) := by
  obtain ⟨before, split, _, calls⟩ := reads
  have buffer : (if 0 < reader.pending.length then reader.pending ++ chunk else chunk) =
      reader.pending ++ chunk := by
    split
    · rfl
    · next none_ =>
      have empty : reader.pending = [] := eq_nil_of_length_eq_zero (by omega)
      rw [empty, nil_append]
  obtain ⟨frames, tail, cut, unfinished⟩ := exists_frames (reader.pending ++ chunk)
  have whole := demultiplex_frames frames tail unfinished
  have pending : (frameReader reader chunk).pending = tail := by
    unfold frameReader
    dsimp only
    rw [buffer, cut, whole, drop_left]
  refine ⟨before ++ frames, ?_, ?_, ?_⟩
  · rw [pending, split, bytesOf_append, append_assoc, append_assoc, cut]
  · rw [pending]
    exact unfinished
  · unfold frameReader
    dsimp only
    rw [buffer, cut, whole, calls, flatMap_append]

theorem reads_chunks (chunks : List Bytes) : Reads (chunks.foldl frameReader {}) chunks.flatten := by
  induction chunks using List.reverseRecOn with
  | nil => exact reads_nothing
  | append_singleton chunks chunk inductionHypothesis =>
    rw [foldl_concat, flatten_concat]
    exact reads_frameReader inductionHypothesis chunk

/-- However a string of frames is cut into chunks, the reader calls with exactly the lines that
demultiplex finds in the whole string, which are those of its frames, and keeps the bytes of
the unfinished one. -/
theorem frameReader_chunks (frames : List Frame) (tail : Bytes) (unfinished : Unfinished tail)
    (chunks : List Bytes) (cut : chunks.flatten = bytesOf frames ++ tail) :
    (chunks.foldl frameReader {}).calls = (demultiplex (bytesOf frames ++ tail)).1 ∧
      (demultiplex (bytesOf frames ++ tail)).1 = frames.flatMap Frame.calls ∧
      (chunks.foldl frameReader {}).pending = tail := by
  obtain ⟨others, split, rest, calls⟩ := reads_chunks chunks
  have here := demultiplex_frames frames tail unfinished
  have there := demultiplex_frames others _ rest
  rw [← split, cut, here] at there
  obtain ⟨lines, offset⟩ := Prod.mk.inj there
  refine ⟨?_, by rw [here], ?_⟩
  · rw [here, calls, lines]
  · have pending := congrArg (List.drop (bytesOf frames).length) (cut.symm.trans split)
    rw [drop_left, offset, drop_left] at pending
    exact pending.symm

/-- A frame of two lines, cut inside its header and inside its payload, with the first byte of
the next behind it. -/
theorem frameReader_chunks_cutTwice :
    let frame : Bytes := [2, 0, 0, 0, 0, 0, 0, 3, 97, 10, 98]
    let chunks : List Bytes := [frame.take 3, (frame.drop 3).take 7, frame.drop 10 ++ [1]]
    (chunks.foldl frameReader {}).calls = (demultiplex (frame ++ [1])).1 ∧
      (chunks.foldl frameReader {}).pending = [1] := by
  have read := frameReader_chunks
    [⟨[2, 0, 0, 0, 0, 0, 0, 3], [97, 10, 98], rfl, by decide⟩] [1]
    (unfinished_of_short [1] (by decide))
    [[2, 0, 0], [0, 0, 0, 0, 3, 97, 10], [98, 1]] rfl
  exact ⟨read.1, read.2.2⟩

end Geeboard.Agent.Console
