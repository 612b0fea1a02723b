/-
This file says what unpacking the archive of a folder does. A folder is a tree of
directories and files; its archive is read entry by entry, and each entry comes to
the calls its name and its content ask for, or to the reason it is refused. Only the
sizes of the files have to fit the twelve digits of a header.
-/

import Geeboard.Agent.Inside
import Geeboard.Agent.TarFields

namespace Geeboard.Tar

open Text Feeding List

/-! ### Folders -/

/-- What a folder holds at a path. -/
inductive Content where
  | directory (mode : Nat) (mtimeMs : Int)
  | file (mode : Nat) (mtimeMs : Int) (bytes : Bytes)

/-- An entry of a folder: the names that lead to it, and what it is. -/
structure Stored where
  parts : List (List Char)
  content : Content

namespace Stored

def isDirectory (entry : Stored) : Prop :=
  ∃ mode mtimeMs, entry.content = .directory mode mtimeMs

/-- What stands at an entry's path. -/
def node (entry : Stored) : Node :=
  match entry.content with
  | .directory _ _ => .directory
  | .file _ _ bytes => .file bytes

def bytes (entry : Stored) : Bytes :=
  match entry.content with
  | .directory _ _ => []
  | .file _ _ bytes => bytes

def type (entry : Stored) : Char :=
  match entry.content with
  | .directory _ _ => '5'
  | .file _ _ _ => '0'

def mode (entry : Stored) : Nat :=
  match entry.content with
  | .directory mode _ => mode
  | .file mode _ _ => mode

def mtimeMs (entry : Stored) : Int :=
  match entry.content with
  | .directory _ mtimeMs => mtimeMs
  | .file _ mtimeMs _ => mtimeMs

/-- The path of an entry, from the folder's root. -/
def relative (entry : Stored) : List Char :=
  joined entry.parts

/-- The name of an entry in an archive: a directory's ends with a separator. -/
def name (entry : Stored) : List Char :=
  match entry.content with
  | .directory _ _ => entry.relative ++ ['/']
  | .file _ _ _ => entry.relative

/-- An entry as the walk yields it, while nothing changes. -/
def walked (entry : Stored) : Walked where
  relative := entry.relative
  kind :=
    match entry.content with
    | .directory mode mtimeMs => .directory mode mtimeMs
    | .file mode mtimeMs bytes =>
      .file (.opened bytes.length mode mtimeMs bytes bytes.length)

/-- A path made of names a file system admits. -/
def Named (entry : Stored) : Prop :=
  entry.parts ≠ [] ∧ ∀ part ∈ entry.parts, IsPart part ∧ '\x00' ∉ part

end Stored

/-! ### The name of an entry -/

theorem not_mem_joined (char : Char) (parts : List (List Char)) (separates : char ≠ '/')
    (clean : ∀ part ∈ parts, char ∉ part) : char ∉ joined parts := by
  have single : ∀ part : List Char, joined [part] = part :=
    fun part => intercalate_singleton
  induction parts with
  | nil => exact fun member => nomatch member
  | cons part parts inductionHypothesis =>
    by_cases last : parts = []
    · rw [last, single]
      exact clean part mem_cons_self
    · rw [← singleton_append, joined_append [part] parts (cons_ne_nil _ _) last,
        single]
      intro member
      obtain first | later := mem_append.mp member
      · exact clean part mem_cons_self first
      · obtain separator | rest := mem_cons.mp later
        · exact separates separator
        · exact inductionHypothesis
            (fun other member => clean other (mem_cons_of_mem _ member)) rest

theorem joined_ne_nil (parts : List (List Char)) (some' : parts ≠ [])
    (proper : ∀ part ∈ parts, IsPart part) : joined parts ≠ [] := by
  intro empty
  have cut := segments_joined parts proper some'
  rw [empty] at cut
  have single : parts = [[]] := cut.symm
  exact (proper [] (by rw [single]; exact mem_cons_self)).1 rfl

namespace Stored

theorem type_plain (entry : Stored) : entry.type.toNat < 128 := by
  unfold Stored.type
  split <;> decide

theorem not_isMetadata (entry : Stored) : isMetadata entry.type = false := by
  unfold Stored.type
  split <;> rfl

theorem name_clean {entry : Stored} (named : entry.Named) : '\x00' ∉ entry.name := by
  have clean : '\x00' ∉ entry.relative :=
    not_mem_joined '\x00' entry.parts (by decide) fun part member => (named.2 part member).2
  unfold Stored.name
  split
  · intro member
    obtain inside | last := mem_append.mp member
    · exact clean inside
    · exact absurd (mem_singleton.mp last) (by decide)
  · exact clean

theorem name_ne_nil {entry : Stored} (named : entry.Named) : entry.name ≠ [] := by
  have some' : entry.relative ≠ [] :=
    joined_ne_nil entry.parts named.1 fun part member => (named.2 part member).1
  unfold Stored.name
  split
  · exact append_ne_nil_of_left_ne_nil some' _
  · exact some'

/-- A header of an entry does not look like the end of an archive. -/
theorem Named.head_header {entry : Stored} (named : entry.Named) (size : Nat) (type : Char)
    (mode : Nat) (mtimeMs : Int) :
    (header entry.name size type mode mtimeMs).head? ≠ some 0 := by
  have clean := name_clean named
  have some' := name_ne_nil named
  cases name : entry.name with
  | nil => exact absurd name some'
  | cons char rest =>
    refine Tar.head_header char rest ?_
    rintro rfl
    exact clean (by rw [name]; exact mem_cons_self)

end Stored

/-! ### Trees of entries -/

/-- Something in a directory whose name, as the file system has it, is the encoding of no text. -/
structure Unspelled where
  above : List (List Char)
  name : Bytes
  noText : ∀ text, encode text ≠ name

/-- A tree of directories and files: what the walk yields of it, in any order, and what it does not
come to, because the text that it reads for the name is the name of nothing there. -/
structure Folder where
  entries : List Stored
  unspelled : List Unspelled
  named : ∀ entry ∈ entries, entry.Named
  distinct : (entries.map Stored.parts).Nodup
  closed : ∀ entry ∈ entries, ∀ parts, parts ≠ [] → parts <+: entry.parts →
    parts ≠ entry.parts → ∃ above ∈ entries, above.parts = parts ∧ above.isDirectory
  unfound : ∀ other ∈ unspelled, ∀ entry ∈ entries, entry.parts ≠ other.above ++ [decode other.name]

/-- What stands where in a folder, from its root. -/
def Folder.tree (folder : Folder) : Tree := fun parts =>
  (folder.entries.find? fun entry => entry.parts = parts).map Stored.node

/-! ### What an entry comes to -/

section
variable (disk : Disk) (directory : Place)

/-- The calls an entry asks for at its place. -/
def unpackAt (log : List Effect) (destination : Place) :
    Content → Fallible (List Effect)
  | .directory _ _ => makeDirectory disk log destination
  | .file _ _ bytes =>
    match makeDirectory disk log destination.parent with
    | .error stopped => .error stopped
    | .ok log =>
      match writeBytes disk (log ++ [.opened destination]) bytes with
      | .error stopped => .error stopped
      | .ok log => closeSink disk log

/-- Whether an entry's path is too long even for an extended header. -/
def Stored.TooLong (entry : Stored) : Prop :=
  100 < (encode entry.name).length ∧ maxMetadataBytes < lengthIn "path".toList entry.name

instance (entry : Stored) : Decidable entry.TooLong := by
  unfold Stored.TooLong
  infer_instance

/-- What an entry of an archive comes to. -/
def unpackEntry (log : List Effect) (entry : Stored) : Fallible (List Effect) :=
  if entry.TooLong then .error (log, .metadataTooLarge)
  else
    match safeJoin directory entry.name with
    | .error trouble => .error (log, trouble)
    | .ok destination => unpackAt disk log destination entry.content

/-- What the entries of an archive come to. -/
def unpackAll : List Effect → List Stored → Fallible (List Effect)
  | log, [] => .ok log
  | log, entry :: entries =>
    match unpackEntry disk directory log entry with
    | .error stopped => .error stopped
    | .ok log => unpackAll log entries

end

/-! ### The bytes of an entry -/

/-- How many zeros follow a payload. -/
def fillAfter (size : Nat) : Nat :=
  (block - size % block) % block

/-- The bytes of an entry in an archive. -/
def Stored.archived (entry : Stored) : Bytes :=
  (headers entry.name entry.bytes.length entry.type entry.mode entry.mtimeMs).flatten ++
    entry.bytes ++ List.replicate (fillAfter entry.bytes.length) 0

theorem flatten_remainderChunk (size : Nat) :
    (remainderChunk size).flatten = List.replicate (fillAfter size) 0 := by
  unfold remainderChunk fillAfter
  have positive : 0 < block := by decide
  split
  · next rest =>
    have less := Nat.mod_lt size positive
    rw [flatten_singleton, Nat.mod_eq_of_lt (show block - size % block < block by omega)]
  · next whole =>
    have none' : size % block = 0 := Classical.not_not.mp whole
    rw [none', Nat.sub_zero, Nat.mod_self]
    rfl

theorem paddingAfter_eq (size : Nat) : paddingAfter size = fillAfter size := by
  unfold paddingAfter fillAfter
  have positive : 0 < block := by decide
  have less := Nat.mod_lt size positive
  have remainder : ∀ count : Nat, Int.tmod count block = (count % block : Nat) := by
    intro count
    rw [Int.tmod_eq_emod_of_nonneg (Int.natCast_nonneg count), Int.natCast_emod]
  have filled : (block : Int) - (size % block : Nat) = (block - size % block : Nat) := by
    omega
  rw [remainder, filled, remainder]
  rfl

theorem entryChunks_walked (entry : Stored) :
    (entryChunks entry.walked).1.flatten = entry.archived := by
  unfold entryChunks Stored.archived Stored.walked
  cases content : entry.content with
  | directory mode mtimeMs =>
    simp only [Stored.bytes, Stored.type, Stored.mode, Stored.mtimeMs, Stored.name, content,
      length_nil, append_nil]
    rw [show fillAfter 0 = 0 from rfl, replicate_zero, append_nil]
  | file mode mtimeMs bytes =>
    simp only [Stored.bytes, Stored.type, Stored.mode, Stored.mtimeMs, Stored.name, content]
    unfold contentChunks
    dsimp only
    rw [take_length, if_neg (lt_irrefl _), if_neg (lt_irrefl _), flatten_append,
      flatten_append, flatten_remainderChunk, flatten_singleton]

/-- The archive of a folder: what the walk does not come to is passed over. -/
def Folder.archive (folder : Folder) : List Bytes :=
  (tarChunks (folder.entries.map Stored.walked)).1

theorem flatten_archive (folder : Folder) :
    folder.archive.flatten =
      (folder.entries.map Stored.archived).flatten ++ List.replicate (block * 2) 0 := by
  unfold Folder.archive tarChunks
  dsimp only
  rw [flatten_append, flatten_singleton]
  congr 1
  generalize folder.entries = entries
  induction entries with
  | nil => rfl
  | cons entry entries inductionHypothesis =>
    rw [map_cons, flatMap_cons, flatten_append, inductionHypothesis,
      entryChunks_walked, map_cons, flatten_cons]

end Geeboard.Tar
