/-
This file models how the agent gets to a file under a server's directory. The walk
opens one component after the other, each through the directory it holds, as a
directory and without following a link. A link it meets is read and followed by
hand: its target becomes a path to walk again from the root, or is refused.

Each state of the walk makes one system call, and the calls are answered by the file
system as it is at that moment: between any two of them the game's own process may
change the tree.
-/

import Geeboard.Systems.Inodes
import Geeboard.Text.Paths

namespace Geeboard.Beneath

open Text Inodes

/-! ### The file system -/

abbrev Name : Type := List Char

abbrev Inode : Type := Nat

abbrev System : Type := FileSystem Inode Name (List Char)

/-- What else a kernel answers with: the path that a descriptor's own link shows, the directory
above one, whether a link opened as a directory is refused for being a link, and a new inode, if
there is room for one. -/
structure Kernel where
  pathOf : System → Inode → List Char
  above : System → Inode → Inode
  toldAsLink : Bool
  fresh : System → Option Inode
  isFresh : ∀ system inode, fresh system = some inode → system.kind inode = none

/-- What stands at a name, seen without following it. -/
inductive Seen where
  | directory (inode : Inode)
  | link (target : List Char)
  | other (inode : Inode)

section
variable (kernel : Kernel)

/-- What stands at a name in a directory that is held. With no name behind it, the path of a
descriptor is a link itself. -/
def seen (system : System) (dir : Inode) (name : Name) : Option Seen :=
  if name = [] then some (.link (kernel.pathOf system dir))
  else if name = ['.'] then some (.directory dir)
  else if name = ['.', '.'] then some (.directory (kernel.above system dir))
  else
    (system.entries dir name).map fun inode =>
      match system.kind inode with
      | some .directory => .directory inode
      | some (.link target) => .link target
      | _ => .other inode

/-- Something new made at a name in a directory that is held: in a directory that was removed
nothing is made. -/
def create (system : System) (dir : Inode) (name : Name) (kind : Kind (List Char)) :
    Except String (System × Inode) :=
  if (seen kernel system dir name).isSome then .error "EEXIST"
  else if system.removed dir then .error "ENOENT"
  else
    match kernel.fresh system with
    | none => .error "ENOSPC"
    | some inode => .ok ((system.withInode inode kind).withEntry dir name (some inode), inode)

end

/-! ### Paths -/

/-- Why a request is refused. -/
inductive Trouble where
  | noServer
  | nullByte
  | escapes
  | escapesThroughLink
  | notDirectory
  | tooManyLinks
  | noDirectory
  | changed
  | notRegular
  | notADirectory
  | system (code : String)
  deriving DecidableEq

def Trouble.text : Trouble → String
  | noServer => "no such server directory"
  | nullByte => "path contains a null byte"
  | escapes => "path escapes the server directory"
  | escapesThroughLink => "path escapes the server directory through a link"
  | notDirectory => "that is not a directory"
  | tooManyLinks => "too many links on the way"
  | noDirectory => "no such directory"
  | changed => "the path changed while it was being opened: try again"
  | notRegular => "not a regular file"
  | notADirectory => "not a directory"
  | system code => code

/-- How many links a path may go through before it is a loop. -/
def maxLinks : Nat := 40

/-- The parts of a link's target, from the server's root, or a refusal. -/
def afterLink (inside : List Name) (target : List Char) (realRoot : Place) :
    Except Trouble (List Name) :=
  if target.head? = some '/' then
    let relative := joined (realRoot.relative (realRoot.resolve (normalize target)))
    if leadsOut relative ∨ relative.head? = some '/' then .error .escapesThroughLink
    else if relative = [] then .ok []
    else .ok (segments relative)
  else
    let path := normalize (joined (inside ++ [target]))
    if leadsOut path then .error .escapesThroughLink
    else if path = ['.'] then .ok []
    else .ok (segments path)

/-- The components of a request: one separator, root-relative, and nothing above the root. -/
def partsOf (requested : List Char) : Except Trouble (List Name) :=
  if '\x00' ∈ requested then .error .nullByte
  else
    let relative := (requested.map fun char => if char = '\\' then '/' else char).dropWhile
      fun char => char = '/'
    let normal := normalize (if relative = [] then ['.'] else relative)
    if leadsOut normal then .error .escapes
    else if normal = ['.'] then .ok []
    else .ok ((segments normal).filter fun part => part ≠ [])

/-! ### The walk -/

structure Options where
  create : Bool
  followLast : Bool

/-- The directory that holds the last component, held open, the component's name, and where that
is from the server's root. -/
structure Located where
  dir : Inode
  name : Name
  logical : List Name
  deriving DecidableEq

/-- Where the walk is: what it holds, what it walked, what is left of its path, and how many links
it went through. -/
inductive Walk where
  | arriving (requested : List Char)
  | opening (queue : List Name) (links : Nat)
  | walking (dir : Inode) (logical queue : List Name) (links : Nat)
  | blocked (dir : Inode) (logical queue : List Name) (links : Nat)
  | missing (dir : Inode) (logical queue : List Name) (links : Nat)
  | following (dir : Inode) (logical queue : List Name) (links : Nat)
  | ended (outcome : Except Trouble Located)
  deriving DecidableEq

def Walk.isEnded : Walk → Bool
  | .ended _ => true
  | _ => false

section
variable (kernel : Kernel) (root : Inode) (realRoot : Place) (options : Options)

/-- A link's target, walked from the root with what is left behind it. -/
def restart (logical : List Name) (target : List Char) (rest : List Name) (links : Nat) : Walk :=
  if maxLinks < links + 1 then .ended (.error .tooManyLinks)
  else
    match afterLink logical target realRoot with
    | .error trouble => .ended (.error trouble)
    | .ok parts => .opening (parts ++ rest) (links + 1)

/-- One system call of the walk, and what the walk makes of the answer. -/
def step (system : System) : Walk → System × Walk
  | .arriving requested =>
    match partsOf requested with
    | .error trouble => (system, .ended (.error trouble))
    | .ok queue => (system, .opening queue 0)
  | .opening queue links => (system, .walking root [] queue links)
  | .walking dir logical [] _ => (system, .ended (.ok ⟨dir, [], logical⟩))
  | .walking dir logical [name] links =>
    match seen kernel system dir name with
    | some (.link _) =>
      if options.followLast then (system, .following dir logical [name] links)
      else (system, .ended (.ok ⟨dir, name, logical⟩))
    | _ => (system, .ended (.ok ⟨dir, name, logical⟩))
  | .walking dir logical (name :: next :: rest) links =>
    match seen kernel system dir name with
    | some (.directory child) =>
      (system, .walking child (logical ++ [name]) (next :: rest) links)
    | some _ => (system, .blocked dir logical (name :: next :: rest) links)
    | none =>
      if options.create then (system, .missing dir logical (name :: next :: rest) links)
      else (system, .ended (.error .noDirectory))
  | .blocked dir logical queue links =>
    match seen kernel system dir (queue.headD []) with
    | some (.link target) => (system, restart realRoot logical target queue.tail links)
    | _ => (system, .ended (.error .notDirectory))
  | .missing dir logical queue links =>
    match create kernel system dir (queue.headD []) .directory with
    | .ok (made, _) => (made, .walking dir logical queue links)
    | .error code =>
      if code = "EEXIST" then (system, .walking dir logical queue links)
      else (system, .ended (.error (.system code)))
  | .following dir logical queue links =>
    match seen kernel system dir (queue.headD []) with
    | some (.link target) => (system, restart realRoot logical target [] links)
    | _ => (system, .ended (.error (.system "EINVAL")))
  | .ended outcome => (system, .ended outcome)

/-- A call that fails for a reason of its own: what a link's target is may stay unknown. -/
def refused (code : String) : Walk → Walk
  | .arriving _ => .ended (.error .noServer)
  | .blocked _ _ _ _ => .ended (.error .notDirectory)
  | _ => .ended (.error (.system code))

end

/-! ### What is done through it -/

/-- What of an open's flags matters here: whether it is for writing, whether a missing file is
made, and whether one that is there is refused. -/
structure Flags where
  write : Bool
  create : Bool
  exclusive : Bool

section
variable (kernel : Kernel)

/-- The located thing opened as a file. -/
def openFile (system : System) (located : Located) (flags : Flags) :
    System × Except Trouble Inode :=
  match seen kernel system located.dir located.name with
  | none =>
    if flags.create then
      match create kernel system located.dir located.name .file with
      | .ok (made, inode) => (made, .ok inode)
      | .error code => (system, .error (.system code))
    else (system, .error (.system "ENOENT"))
  | some what =>
    if flags.create && flags.exclusive then (system, .error (.system "EEXIST"))
    else
      match what with
      | .link _ => (system, .error .changed)
      | .directory _ =>
        if flags.write || flags.create then (system, .error (.system "EISDIR"))
        else (system, .error .notRegular)
      | .other inode =>
        if system.kind inode = some .file then (system, .ok inode)
        else (system, .error .notRegular)

/-- The directory that what is done with the located thing is given. -/
def withDirectory (system : System) (located : Located) : Except Trouble Inode :=
  if located.name = [] then .ok located.dir
  else
    match seen kernel system located.dir located.name with
    | none => .error .noDirectory
    | some (.link _) => if kernel.toldAsLink then .error .changed else .error .notADirectory
    | some (.other _) => .error .notADirectory
    | some (.directory inode) => .ok inode

end

end Geeboard.Beneath
