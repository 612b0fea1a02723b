/-
This file models the disk a node's agent works on.

Three kinds of things matter to a restore and to the sweep that clears up after
one: a server's own directory, the directories a restore writes and sets aside
next to it, and the archives. All of them are entries of the data root, known by
the path below it. What a directory holds is the list of its files, so that "as
it was before" is an equation between lists and a directory that was unpacked
only partly is simply another list.

Every file system call can be done, fail without effect, take effect and then
fail, or, for the calls that touch many files, stop partway. What a partial call
leaves and the order in which a directory is listed belong to the outcome, so a
theorem about every outcome is a theorem about every such choice.
-/

import Geeboard.Effects.Run
import Mathlib.Logic.Function.Basic

namespace Geeboard.Agent

open Effects

/-! ### What is on the disk -/

/-- The files of a directory: the path inside it and what the file holds. -/
abbrev Tree : Type := List (String × Nat)

/-- A path below the data root. -/
abbrev Path : Type := List String

/-- An archive as the agent sees it: its size, its digest, the uncompressed size its last
four bytes claim, and what it unpacks to. -/
structure Archive where
  sizeBytes : Nat
  checksum : String
  tail : Nat
  contents : Tree
  deriving DecidableEq, Repr

/-- An entry below the data root, with the time it was last touched. -/
inductive Entry where
  | directory (files : Tree) (touched : Nat)
  | file (archive : Archive) (touched : Nat)
  deriving DecidableEq, Repr

namespace Entry

/-- The files of a directory; a plain file has none. -/
def files : Entry → Tree
  | directory files _ => files
  | file _ _ => []

def touched : Entry → Nat
  | directory _ touched => touched
  | file _ touched => touched

/-- What `stat` calls the size. -/
def size : Entry → Nat
  | directory _ _ => 0
  | file archive _ => archive.sizeBytes

/-- A rename may replace an empty directory and nothing else. -/
def replaceable : Entry → Bool
  | directory files _ => files.isEmpty
  | file _ _ => false

/-- The bytes of a directory, as the agent adds them up: what could not be read is not
counted. -/
def bytes (unread : List String) (entry : Entry) : Nat :=
  (entry.files.filter fun file => !unread.contains file.1).foldl
    (fun total file => total + file.2) 0

end Entry

/-- The disk of a node: its entries, what is free of it, and its clock. -/
structure Disk where
  entries : Path → Option Entry
  free : Nat
  total : Nat
  clock : Nat

namespace Disk

/-- The files at a path, when a directory is there. -/
def tree (disk : Disk) (path : Path) : Option Tree := (disk.entries path).map Entry.files

def present (disk : Disk) (path : Path) : Bool := (disk.entries path).isSome

def put (disk : Disk) (path : Path) (entry : Option Entry) : Disk :=
  { disk with entries := Function.update disk.entries path entry }

@[simp] theorem put_same (disk : Disk) (path : Path) (entry : Option Entry) :
    (disk.put path entry).entries path = entry := by
  simp [put]

@[simp] theorem put_other (disk : Disk) {path other : Path} (entry : Option Entry)
    (apart : other ≠ path) : (disk.put path entry).entries other = disk.entries other := by
  simp [put, apart]

@[simp] theorem tree_put_same (disk : Disk) (path : Path) (entry : Option Entry) :
    (disk.put path entry).tree path = entry.map Entry.files := by
  simp [tree]

@[simp] theorem tree_put_other (disk : Disk) {path other : Path} (entry : Option Entry)
    (apart : other ≠ path) : (disk.put path entry).tree other = disk.tree other := by
  simp [tree, apart]

end Disk

/-! ### What can go wrong -/

/-- What a failed restore says about the world it was asked to replace. -/
inductive RestoreStage where
  | untouched
  | incomplete
  deriving DecidableEq, Repr

/-- The errors of the agent: the system's own, with the code of the call, and the ones the
agent raises. -/
inductive Failure where
  | system (code message : String)
  | notFound (message : String)
  | path (message : String)
  | backup (message : String) (stage : Option RestoreStage)
  deriving DecidableEq, Repr

namespace Failure

def message : Failure → String
  | system _ message => message
  | notFound message => message
  | path message => message
  | backup message _ => message

/-- The code that travels to the panel with the error. -/
def stage : Failure → Option RestoreStage
  | backup _ stage => stage
  | _ => none

end Failure

/-- How a call turns out. -/
inductive Fault where
  | done
  | failed
  | doneThenFailed
  | partly
  deriving DecidableEq, Repr

/-- The outcome of a call: how it turned out, the system's code and message when it fails,
what a partial effect leaves behind, the order in which a listing comes, and the files a look
through a directory could not read. -/
structure Outcome where
  fault : Fault := .done
  code : String := "EIO"
  message : String := "i/o error"
  left : Tree := []
  listing : List String := []
  unread : List String := []
  deriving DecidableEq, Repr

/-- The error a failing call raises. -/
def Outcome.error (outcome : Outcome) : Failure := .system outcome.code outcome.message

@[simp] theorem Outcome.error_stage (outcome : Outcome) : outcome.error.stage = none := rfl

/-! ### The calls -/

inductive Call where
  | stat (path : Path)
  | digest (path : Path)
  | open_ (path : Path)
  | readTail (path : Path)
  | close (path : Path)
  | statfs
  | directorySize (path : Path)
  | mkdir (path : Path)
  | extract (into archive : Path)
  | rename (source destination : Path)
  | remove (path : Path)
  | readdir (path : Path)
  | newest (path : Path)
  deriving DecidableEq, Repr

/-- What is free and how much there is. -/
structure Space where
  free : Nat
  total : Nat
  deriving DecidableEq, Repr

abbrev Call.Reply : Call → Type
  | stat _ => Nat
  | digest _ => String
  | open_ _ => Unit
  | readTail _ => Nat
  | close _ => Unit
  | statfs => Space
  | directorySize _ => Nat
  | mkdir _ => Unit
  | extract _ _ => Nat
  | rename _ _ => Unit
  | remove _ => Unit
  | readdir _ => List String
  | newest _ => Nat

/-- The awaited steps of the agent's code. -/
inductive Label where
  | statArchive
  | checksum
  | readArchive
  | openArchive
  | readTail
  | closeArchive
  | statWorld
  | space
  | worldSize
  | makeStaging
  | unpack
  | dropStaging
  | statBefore
  | setAside
  | exchange
  | putBack
  | clearStaging
  | dropAside
  | emptyWorld
  | makeWorld
  | list (folder : Path)
  | entry (name : String)
  | age
  | drop
  | recover
  deriving DecidableEq, Repr

/-- The interface between the agent's code and its disk. -/
abbrev interface : Interface where
  Call := Call
  Reply := Call.Reply
  Failure := Failure
  Label := Label

/-- The agent's code. Its operations assign no variables that a handler reads. -/
abbrev AgentCode (Result : Type) : Type := Code interface Unit Result

/-- One awaited call of the agent. -/
def request (label : Label) (call : Call) : AgentCode call.Reply :=
  @Code.call interface Unit label call

def missing : Failure := .system "ENOENT" "no such file or directory"

def notEmpty : Failure := .system "ENOTEMPTY" "directory not empty"

@[simp] theorem missing_stage : missing.stage = none := rfl

@[simp] theorem notEmpty_stage : notEmpty.stage = none := rfl

/-- Files unpacked over what a directory already holds. -/
def overlay (unpacked before : Tree) : Tree :=
  unpacked ++ before.filter fun file => !(unpacked.any fun other => other.1 == file.1)

@[simp] theorem overlay_nil (unpacked : Tree) : overlay unpacked [] = unpacked := by
  simp [overlay]

/-- What a call does when nothing interferes: its reply and the disk after it, or the error
the system answers with. -/
def perform (outcome : Outcome) : (call : Call) → Disk → Except Failure (call.Reply × Disk)
  | .stat path, disk => match disk.entries path with
    | some entry => .ok (entry.size, disk)
    | none => .error missing
  | .digest path, disk => match disk.entries path with
    | some (.file archive _) => .ok (archive.checksum, disk)
    | _ => .error missing
  | .open_ path, disk => if disk.present path then .ok ((), disk) else .error missing
  | .readTail path, disk => match disk.entries path with
    | some (.file archive _) => .ok (archive.tail, disk)
    | _ => .error missing
  | .close _, disk => .ok ((), disk)
  | .statfs, disk => .ok (⟨disk.free, disk.total⟩, disk)
  | .directorySize path, disk => match disk.entries path with
    | some entry => .ok (entry.bytes outcome.unread, disk)
    | none => .error missing
  | .mkdir path, disk => match disk.entries path with
    | some _ => .ok ((), disk)
    | none => .ok ((), disk.put path (some (.directory [] disk.clock)))
  | .extract into source, disk => match disk.entries into, disk.entries source with
    | some entry, some (.file archive _) =>
      .ok (archive.contents.length,
        disk.put into (some (.directory (overlay archive.contents entry.files) disk.clock)))
    | _, _ => .error missing
  | .rename source destination, disk => match disk.entries source with
    | none => .error missing
    | some entry => match disk.entries destination with
      | none => .ok ((), (disk.put source none).put destination (some entry))
      | some there =>
        if there.replaceable then .ok ((), (disk.put source none).put destination (some entry))
        else .error notEmpty
  | .remove path, disk => .ok ((), disk.put path none)
  | .readdir path, disk =>
    .ok (outcome.listing.filter fun name => disk.present (path ++ [name]), disk)
  | .newest path, disk => match disk.entries path with
    | some entry => .ok (entry.touched, disk)
    | none => .error missing

/-- What a call that stops partway leaves: an unpacking or a removal leaves some of the
files, the other calls leave nothing of themselves. -/
def performPartly (outcome : Outcome) : Call → Disk → Disk
  | .extract into _, disk => match disk.entries into with
    | some _ => disk.put into (some (.directory outcome.left disk.clock))
    | none => disk
  | .remove path, disk => match disk.entries path with
    | some _ => disk.put path (some (.directory outcome.left disk.clock))
    | none => disk
  | _, disk => disk

/-- Answering a call: done, failed without effect, done and then failed, or partly done and
then failed. -/
def answer (outcome : Outcome) (call : Call) (disk : Disk) :
    Except Failure call.Reply × Disk :=
  match outcome.fault with
  | .done => match perform outcome call disk with
    | .ok (reply, after) => (.ok reply, after)
    | .error error => (.error error, disk)
  | .failed => (.error outcome.error, disk)
  | .doneThenFailed => match perform outcome call disk with
    | .ok (_, after) => (.error outcome.error, after)
    | .error error => (.error error, disk)
  | .partly => (.error outcome.error, performPartly outcome call disk)

/-- The disk as a machine. The agent is the only party that calls it. -/
abbrev machine : Machine interface where
  World := Disk
  Outcome := Outcome
  Actor := Unit
  answer _ := answer

/-! ### Running the agent's code -/

/-- An outcome for every awaited step. -/
abbrev Faults : Type := List Label → Outcome

/-- The run of the agent's code from a disk: how it ended and the disk after it. -/
def ran {Result : Type} (faults : Faults) (code : AgentCode Result) (disk : Disk) :
    Except Failure Result × Disk :=
  ((code.run machine () faults () disk).1.1, (code.run machine () faults () disk).2)

section Ran

variable {First Second : Type} (faults : Faults)

@[simp] theorem ran_pure (result : First) (disk : Disk) :
    ran faults (pure result) disk = (.ok result, disk) := rfl

@[simp] theorem ran_throw (failure : Failure) (disk : Disk) :
    ran faults (Code.throw failure : AgentCode First) disk = (.error failure, disk) := rfl

@[simp] theorem ran_request (label : Label) (call : Call) (disk : Disk) :
    ran faults (request label call) disk = answer (faults [label]) call disk := rfl

@[simp] theorem ran_step (label : Label) (code : AgentCode First) (disk : Disk) :
    ran faults (Code.step label code) disk =
      ran (fun site => faults (label :: site)) code disk :=
  congrArg (fun out => (out.1.1, out.2)) (Code.run_step machine () faults label code () disk)

@[simp] theorem ran_attempt (code : AgentCode First) (disk : Disk) :
    ran faults code.attempt disk = (.ok (ran faults code disk).1, (ran faults code disk).2) :=
  congrArg (fun out => (out.1.1, out.2)) (Code.run_attempt machine () faults code () disk)

@[simp] theorem ran_succeeded (code : AgentCode First) (disk : Disk) :
    ran faults code.succeeded disk =
      (.ok (ran faults code disk).1.isOk, (ran faults code disk).2) :=
  congrArg (fun out => (out.1.1, out.2))
    (@Code.run_succeeded interface Unit _ machine () faults code () disk)

theorem ran_bind (code : AgentCode First) (rest : First → AgentCode Second) (disk : Disk) :
    ran faults (code >>= rest) disk =
      match ran faults code disk with
      | (.ok result, after) => ran faults (rest result) after
      | (.error failure, after) => (.error failure, after) := by
  have sequence := Code.run_bind machine () faults code rest () disk
  simp only [ran]
  rw [sequence]
  rcases code.run machine () faults () disk with ⟨⟨result | failure, after⟩, later⟩
  · rfl
  · rfl

/-- A computation on the result does not touch the disk. -/
theorem ran_map_disk (code : AgentCode First) (change : First → Second) (disk : Disk) :
    (ran faults (code >>= fun result => pure (change result)) disk).2 =
      (ran faults code disk).2 := by
  rw [ran_bind]
  rcases ran faults code disk with ⟨failure | result, after⟩
  · rfl
  · rfl

variable {faults}

theorem ran_bind_ok {code : AgentCode First} {rest : First → AgentCode Second}
    {disk after : Disk} {result : First} (ended : ran faults code disk = (.ok result, after)) :
    ran faults (code >>= rest) disk = ran faults (rest result) after := by
  rw [ran_bind, ended]

theorem ran_bind_error {code : AgentCode First} {rest : First → AgentCode Second}
    {disk after : Disk} {failure : Failure}
    (ended : ran faults code disk = (.error failure, after)) :
    ran faults (code >>= rest) disk = (.error failure, after) := by
  rw [ran_bind, ended]

end Ran

/-- What a run of the agent's code sees on its way. -/
def along {Result : Type} (faults : Faults) (fits : Disk → Option Call → Prop)
    (code : AgentCode Result) (disk : Disk) : Prop :=
  Program.Along machine () faults fits (code ()) disk

section Along

variable {First Second : Type} {faults : Faults} {fits : Disk → Option Call → Prop}
  {disk : Disk}

theorem along_pure {result : First} (here : fits disk none) :
    along faults fits (pure result) disk := here

theorem along_throw {failure : Failure} (here : fits disk none) :
    along faults fits (Code.throw failure : AgentCode First) disk := here

theorem along_request {label : Label} {call : Call} (here : fits disk (some call))
    (after : fits (answer (faults [label]) call disk).2 none) :
    along faults fits (request label call) disk := ⟨here, after⟩

theorem along_bind {code : AgentCode First} {rest : First → AgentCode Second}
    (first : along faults fits code disk)
    (second : ∀ result after, ran faults code disk = (.ok result, after) →
      along faults fits (rest result) after) :
    along faults fits (code >>= rest) disk := by
  refine Code.along_bind first fun result after later ended => ?_
  exact second result later (by simp only [ran, ended])

/-- The same when the rest is the same whatever the result is. -/
theorem along_then {code : AgentCode First} {rest : First → AgentCode Second}
    (first : along faults fits code disk)
    (second : ∀ result, along faults fits (rest result) (ran faults code disk).2) :
    along faults fits (code >>= rest) disk := by
  refine along_bind first fun result after ended => ?_
  have here := second result
  rw [ended] at here
  exact here

theorem along_attempt {code : AgentCode First} (first : along faults fits code disk) :
    along faults fits code.attempt disk :=
  Program.along_bind first (Program.along_end first)

theorem along_succeeded {code : AgentCode First} (first : along faults fits code disk) :
    along faults fits code.succeeded disk := by
  refine along_then (along_attempt first) fun result => ?_
  have last : fits (ran faults code.attempt disk).2 none :=
    Program.along_end (along_attempt first)
  cases result with
  | error failure => exact along_pure last
  | ok value => exact along_pure last

theorem along_step {label : Label} {code : AgentCode First}
    (first : along (fun site => faults (label :: site)) fits code disk) :
    along faults fits (Code.step label code) disk :=
  @Program.along_within interface _ machine () faults fits label _ disk first

end Along

end Geeboard.Agent
