/-
This file models how the agent moves a file or a folder under a server's directory.

The source and the destination are walked to first, and held by their directories. A
folder is moved by making the destination's directory and renaming onto it; anything
else is linked to its new name and then unlinked from its old one, or renamed after a
look where there are no such links. Each state makes one system call, which is
answered or fails, and between any two of them the game may do what it likes.

What a move makes it does not take back when it is refused afterwards, and what it
removes to clean up is whatever then stands at the destination.
-/

import Geeboard.Agent.Walks
import Geeboard.Systems.Results
import Geeboard.Systems.Steps

namespace Geeboard.Beneath

open Text Inodes Option

/-! ### System calls on held directories -/

/-- What else a kernel answers a rename with: whether a directory is empty, and whether a
directory is another one or below it. -/
structure Mover where
  kernel : Kernel
  bare : System → Inode → Bool
  isBare : ∀ system inode, bare system inode = true ↔ system.Empty inode
  within : System → Inode → Inode → Bool
  isWithin : ∀ system inode directory,
    within system inode directory = true ↔ system.Below inode directory

section
variable (mover : Mover) (system : System) (source destination : Located)

/-- A second name for what is no directory. -/
def linkTo : Except String System :=
  match system.entries source.dir source.name with
  | none => .error "ENOENT"
  | some inode =>
    if (seen mover.kernel system destination.dir destination.name).isSome then .error "EEXIST"
    else if system.removed destination.dir then .error "ENOENT"
    else if system.kind inode = some .directory then .error "EPERM"
    else .ok (system.withEntry destination.dir destination.name (some inode))

/-- Why a name cannot be taken over from what it names. -/
def notOver (inode there : Inode) : Option String :=
  match system.kind inode, system.kind there with
  | some .directory, some .directory => if mover.bare system there then none else some "ENOTEMPTY"
  | some .directory, _ => some "ENOTDIR"
  | _, some .directory => some "EISDIR"
  | _, _ => none

/-- A rename: silently over what is there, where that can be. -/
def renameTo : Except String System :=
  match system.entries source.dir source.name with
  | none => .error "ENOENT"
  | some inode =>
    if system.removed destination.dir then .error "ENOENT"
    else if system.kind inode = some .directory ∧
        mover.within system inode destination.dir = true then .error "EINVAL"
    else
      match system.entries destination.dir destination.name with
      | none =>
        .ok ((system.withEntry source.dir source.name none).withEntry destination.dir
          destination.name (some inode))
      | some there =>
        if there = inode then .ok system
        else
          match notOver mover system inode there with
          | some code => .error code
          | none =>
            .ok (((system.unlinked there).withEntry source.dir source.name none).withEntry
              destination.dir destination.name (some inode))

/-- What is no directory loses a name. -/
def unlinkAt (located : Located) : Except String System :=
  match system.entries located.dir located.name with
  | none => .error "ENOENT"
  | some inode =>
    if system.kind inode = some .directory then .error "EISDIR"
    else .ok (system.withEntry located.dir located.name none)

/-- A forced removal that is not to be recursive: nothing is removed where nothing is, and a
directory is refused. -/
def rmAt (located : Located) : Except String System :=
  match system.entries located.dir located.name with
  | none => .ok system
  | some inode =>
    if system.kind inode = some .directory then .error "ERR_FS_EISDIR"
    else .ok (system.withEntry located.dir located.name none)

end

/-! ### The move -/

/-- Why a move is refused. -/
inductive Refusal where
  | walk (trouble : Trouble)
  | path (text : String)
  | notFound (text : String)
  | exists_ (text : String)
  | system (code : String)
  deriving DecidableEq

def TAKEN : String := "a file or folder with that name is already there; nothing was moved"

/-- Where a move is. -/
inductive Move where
  | locating (walk : Walk)
  | reaching (source : Located) (walk : Walk)
  | looking (source destination : Located)
  | making (source destination : Located)
  | renamingOnto (source destination : Located) (made : Inode)
  | clearing (source destination : Located) (made : Inode) (refusal : Refusal)
  | linking (source destination : Located)
  | checking (source destination : Located)
  | replacing (source destination : Located)
  | unlinking (source destination : Located)
  | closing (outcome : Except Refusal Unit)
  | leaving (outcome : Except Refusal Unit)
  | ended (outcome : Except Refusal Unit)
  deriving DecidableEq

section
variable (mover : Mover) (root : Inode) (realRoot : Place) (to_ : List Char)

/-- The source's walk goes on, or is over. -/
def Move.located : Walk → Move
  | .ended (.ok source) => .reaching source (.arriving to_)
  | .ended (.error trouble) => .ended (.error (.walk trouble))
  | walk => .locating walk

/-- The destination's walk goes on, or is over. -/
def Move.reached (source : Located) : Walk → Move
  | .ended (.ok destination) => .looking source destination
  | .ended (.error trouble) => .leaving (.error (.walk trouble))
  | walk => .reaching source walk

/-- What follows the look at the source. -/
def Move.looked (source destination : Located) : Option Seen → Move
  | none => .closing (.error (.notFound "no such file or directory"))
  | some (.directory _) => .making source destination
  | some _ => .linking source destination

/-- What follows a call that failed with a code. -/
def Move.failed (code : String) : Move → Move
  | .locating walk => .located to_ (refused code walk)
  | .reaching source walk => .reached source (refused code walk)
  | .looking _ _ => .closing (.error (.system code))
  | .making _ _ =>
    if code = "EEXIST" then .closing (.error (.exists_ TAKEN)) else .closing (.error (.system code))
  | .renamingOnto source destination made =>
    .clearing source destination made
      (if code = "EINVAL" then .path "a folder cannot be moved into itself" else .system code)
  | .clearing _ _ _ refusal => .closing (.error refusal)
  | .linking source destination =>
    if code = "EEXIST" then .closing (.error (.exists_ TAKEN))
    else if code ≠ "EPERM" ∧ code ≠ "ENOTSUP" ∧ code ≠ "EMLINK" ∧ code ≠ "EXDEV" then
      .closing (.error (.system code))
    else .checking source destination
  | .checking _ _ => .closing (.error (.system code))
  | .replacing _ _ => .closing (.error (.system code))
  | .unlinking _ _ => .closing (.error (.system code))
  | .closing _ => .leaving (.error (.system code))
  | .leaving _ => .ended (.error (.system code))
  | .ended outcome => .ended outcome

/-- The call of a state, and what follows when it is done. -/
def Move.perform (system : System) : Move → Except String (System × Move)
  | .locating walk =>
    let answered := step mover.kernel root realRoot ⟨false, false⟩ system walk
    .ok (answered.1, .located to_ answered.2)
  | .reaching source walk =>
    let answered := step mover.kernel root realRoot ⟨true, false⟩ system walk
    .ok (answered.1, .reached source answered.2)
  | .looking source destination =>
    .ok (system,
      if source.name = [] then .closing (.error (.path "cannot move the server root"))
      else if destination.name = [] then
        .closing (.error (.path "cannot move onto the server root"))
      else .looked source destination (seen mover.kernel system source.dir source.name))
  | .making source destination =>
    (create mover.kernel system destination.dir destination.name .directory).map fun made =>
      (made.1, .renamingOnto source destination made.2)
  | .renamingOnto source destination _ =>
    (renameTo mover system source destination).map fun after => (after, .closing (.ok ()))
  | .clearing _ destination _ refusal =>
    (rmAt system destination).map fun after => (after, .closing (.error refusal))
  | .linking source destination =>
    (linkTo mover system source destination).map fun after =>
      (after, .unlinking source destination)
  | .checking source destination =>
    .ok (system,
      if (seen mover.kernel system destination.dir destination.name).isSome then
        .closing (.error (.exists_ TAKEN))
      else .replacing source destination)
  | .replacing source destination =>
    (renameTo mover system source destination).map fun after => (after, .closing (.ok ()))
  | .unlinking source _ => (unlinkAt system source).map fun after => (after, .closing (.ok ()))
  | .closing outcome => .ok (system, .leaving outcome)
  | .leaving outcome => .ok (system, .ended outcome)
  | .ended outcome => .ok (system, .ended outcome)

/-- Whether a walk's call makes a directory that is missing. -/
def makesOnWay (system : System) : Walk → Bool
  | .missing dir _ queue _ =>
    match create mover.kernel system dir (queue.headD []) .directory with
    | .ok _ => true
    | .error _ => false
  | _ => false

/-- Whether the call of a state makes or moves something when it is done. -/
def Move.makes (system : System) : Move → Bool
  | .locating walk | .reaching _ walk => makesOnWay mover system walk
  | .making _ _ | .renamingOnto _ _ _ | .linking _ _ | .replacing _ _ | .unlinking _ _ => true
  | _ => false

end

/-- The file system, where the move is, and whether the move has made or moved anything yet. -/
structure Moving where
  system : System
  move : Move
  made : Bool

/-- What can happen next: the call of the move is answered, or fails for a reason of its own, or the
game does something to the file system. -/
inductive MoveEvent where
  | answered
  | fails (code : String)
  | game (after : System)

/-- The event is one of the move's own. -/
def MoveEvent.own : MoveEvent → Bool
  | .game _ => false
  | _ => true

section
variable (mover : Mover) (root : Inode) (realRoot : Place) (to_ : List Char)

/-- One step: a call of the move, or something the game does. -/
def moveStep (now : Moving) : MoveEvent → Option Moving
  | .game after => some { now with system := after }
  | .fails code => some { now with move := now.move.failed to_ code }
  | .answered =>
    match now.move.perform mover root realRoot to_ now.system with
    | .ok (after, next) => some ⟨after, next, now.made || now.move.makes mover now.system⟩
    | .error code => some { now with move := now.move.failed to_ code }

end

/-- A move as it begins. -/
def moveBeneath (system : System) (from_ : List Char) : Moving :=
  ⟨system, .locating (.arriving from_), false⟩

/-! ### What a move may do -/

/-- The names a call of the move may take from what they name: the source's own name, where it is
not the destination's, and the destination's when it names the directory the move made. -/
def Move.mayTake : Move → Inode → Name → Inode → Prop
  | .renamingOnto source destination made => fun dir name inode =>
    (dir = source.dir ∧ name = source.name ∧
      ¬(dir = destination.dir ∧ name = destination.name)) ∨
        (dir = destination.dir ∧ name = destination.name ∧ inode = made)
  | .replacing source destination => fun dir name _ =>
    dir = source.dir ∧ name = source.name ∧ ¬(dir = destination.dir ∧ name = destination.name)
  | .unlinking source destination => fun dir name _ =>
    dir = source.dir ∧ name = source.name ∧ ¬(dir = destination.dir ∧ name = destination.name)
  | _ => fun _ _ _ => False

/-- A call changed nothing that was there: what exists stays what it is, and every name of a
directory goes on naming what it named, but for those that may be taken. -/
structure Spares (before after : System) (mayTake : Inode → Name → Inode → Prop) : Prop where
  kinds : ∀ inode kind, before.kind inode = some kind → after.kind inode = some kind
  names : ∀ dir name inode, before.kind dir = some .directory →
    before.entries dir name = some inode →
      after.entries dir name = some inode ∨ mayTake dir name inode

/-- The move throws, or is on its way to it. -/
def Move.refused : Move → Bool
  | .clearing _ _ _ _ | .closing (.error _) | .leaving (.error _) | .ended (.error _) => true
  | _ => false

/-- The move has thrown. -/
def Move.threw : Move → Bool
  | .ended (.error _) => true
  | _ => false

/-- What stands at the destination is the move's own, or is something the call does not replace or
remove: the rename of a folder finds the directory that was made, the clean-up a directory or
nothing, and the rename after a look nothing. -/
def Move.undisturbed (mover : Mover) (system : System) : Move → Bool
  | .renamingOnto source destination made =>
    match system.entries source.dir source.name,
        system.entries destination.dir destination.name with
    | some inode, some there =>
      decide (there = made) || decide (there = inode) || (notOver mover system inode there).isSome
    | _, _ => true
  | .clearing _ destination _ _ =>
    match system.entries destination.dir destination.name with
    | some there => decide (system.kind there = some .directory)
    | none => true
  | .replacing source destination =>
    match system.entries source.dir source.name,
        system.entries destination.dir destination.name with
    | some inode, some there => decide (there = inode) || (notOver mover system inode there).isSome
    | _, _ => true
  | _ => true

section
variable (mover : Mover) (realRoot : Place)

/-- The file system as it is gives the call of a walk no reason to refuse: the request is one, what
is missing is there or can be made, and a link in the way leads on. -/
def Walk.canGoOn (options : Options) (system : System) : Walk → Bool
  | .arriving requested => (partsOf requested).isOk
  | .walking dir _ (name :: _ :: _) _ =>
    options.create || (seen mover.kernel system dir name).isSome
  | .blocked dir logical queue links | .following dir logical queue links =>
    match seen mover.kernel system dir (queue.headD []) with
    | some (.link target) =>
      decide (links < maxLinks) && (afterLink logical target realRoot).isOk
    | _ => false
  | .missing dir _ queue _ =>
    match create mover.kernel system dir (queue.headD []) .directory with
    | .ok _ => true
    | .error code => code == "EEXIST"
  | .ended (.error _) => false
  | _ => true

/-- The file system as it is gives the call of a state no reason to refuse. -/
def Move.canGoOn (system : System) : Move → Bool
  | .locating walk => walk.canGoOn mover realRoot ⟨false, false⟩ system
  | .reaching _ walk => walk.canGoOn mover realRoot ⟨true, false⟩ system
  | .looking source destination =>
    decide (source.name ≠ []) && decide (destination.name ≠ []) &&
      (seen mover.kernel system source.dir source.name).isSome
  | .making _ destination =>
    (create mover.kernel system destination.dir destination.name .directory).isOk
  | .renamingOnto source destination _ | .replacing source destination =>
    (renameTo mover system source destination).isOk
  | .linking source destination =>
    match linkTo mover system source destination with
    | .ok _ => true
    | .error code => code == "EPERM"
  | .checking _ destination =>
    (seen mover.kernel system destination.dir destination.name).isNone
  | .unlinking source _ => (unlinkAt system source).isOk
  | _ => true

/-- The move goes on after a call that fails for a reason of its own: only the link may, where
there are no hard links. -/
def Move.outlives (code : String) : Move → Bool
  | .linking _ _ => ["EPERM", "ENOTSUP", "EMLINK", "EXDEV"].contains code
  | .ended (.ok _) => true
  | _ => false

/-- Nobody has put something else where a call is about to put or remove something of the move's
own. -/
def stepUndisturbed (now : Moving) : MoveEvent → Bool
  | .answered => now.move.undisturbed mover now.system
  | _ => true

/-- Once the move has made something no call of it fails, and none finds a reason to refuse. -/
def stepUnrefused (now : Moving) : MoveEvent → Bool
  | .answered => !now.made || now.move.canGoOn mover realRoot now.system
  | .fails code => !now.made || now.move.outlives code
  | .game _ => true

end

/-- A step of the move changes nothing but its own. -/
def StepSpares (mover : Mover) (root : Inode) (realRoot : Place) (to_ : List Char) (now : Moving)
    (event : MoveEvent) : Prop :=
  event.own = true → ∀ next, moveStep mover root realRoot to_ now event = some next →
    Spares now.system next.system now.move.mayTake

/-! ### What the calls leave -/

section
variable {mover : Mover} {system after : System} {source destination : Located}
  {mayTake : Inode → Name → Inode → Prop}

theorem spares_same (system : System) (mayTake : Inode → Name → Inode → Prop) :
    Spares system system mayTake :=
  ⟨fun _ _ kind => kind, fun _ _ _ _ named => .inl named⟩

/-- A name given to nothing before. -/
theorem spares_withEntry {dir : Inode} {name : Name} (free : system.entries dir name = none)
    (entry : Option Inode) : Spares system (system.withEntry dir name entry) mayTake := by
  refine ⟨fun _ _ kind => kind, fun dir' name' inode _ named => .inl ?_⟩
  rw [FileSystem.withEntry_other]
  · exact named
  · rintro ⟨rfl, rfl⟩
    rw [free] at named
    exact absurd named (some_ne_none inode).symm

theorem create_spares {kernel : Kernel} {dir made : Inode} {name : Name} {kind : Kind (List Char)}
    (answered : create kernel system dir name kind = .ok (after, made)) :
    Spares system after mayTake := by
  unfold create at answered
  split at answered
  · exact absurd answered nofun
  case isFalse unseen =>
    split at answered
    · exact absurd answered nofun
    · split at answered
      · exact absurd answered nofun
      case h_2 inode fresh =>
        obtain ⟨rfl, rfl⟩ := Prod.mk.inj (Except.ok.inj answered)
        have new := kernel.isFresh system inode fresh
        have free : system.entries dir name = none :=
          seen_none (not_isSome_iff_eq_none.mp unseen)
        refine ⟨fun other kind' had => ?_, fun other name' other' directory named => .inl ?_⟩
        · have differs : other ≠ inode := by
            rintro rfl
            rw [new] at had
            exact absurd had (some_ne_none kind').symm
          exact (Function.update_of_ne differs _ _).trans had
        · have differs : other ≠ inode := by
            rintro rfl
            rw [new] at directory
            exact absurd directory (some_ne_none _).symm
          rw [FileSystem.withEntry_other]
          · exact (congrFun (Function.update_of_ne differs _ _) name').trans named
          · rintro ⟨rfl, rfl⟩
            rw [free] at named
            exact absurd named (some_ne_none other').symm

/-- A call of a walk leaves the file system as it is, unless it makes a directory that is
missing. -/
theorem step_makes {kernel : Kernel} {root : Inode} {realRoot : Place} {options : Options}
    (walk : Walk) :
    (step kernel root realRoot options system walk).1 = system ∨
      ∃ dir logical queue links made, walk = .missing dir logical queue links ∧
        create kernel system dir (queue.headD []) .directory =
          .ok ((step kernel root realRoot options system walk).1, made) := by
  cases walk with
  | arriving requested =>
    refine .inl ?_
    unfold step
    dsimp only
    split <;> rfl
  | opening queue links => exact .inl rfl
  | walking dir logical queue links =>
    refine .inl ?_
    rcases queue with _ | ⟨name, _ | ⟨next, rest⟩⟩
    · rfl
    · unfold step
      dsimp only
      split
      · split <;> rfl
      · rfl
    · unfold step
      dsimp only
      split
      · rfl
      · rfl
      · split <;> rfl
  | blocked dir logical queue links =>
    refine .inl ?_
    unfold step
    dsimp only
    split <;> rfl
  | missing dir logical queue links =>
    unfold step
    dsimp only
    split
    case h_1 made inode answered =>
      exact .inr ⟨dir, logical, queue, links, inode, rfl, answered⟩
    case h_2 => split <;> exact .inl rfl
  | following dir logical queue links =>
    refine .inl ?_
    unfold step
    dsimp only
    split <;> rfl
  | ended outcome => exact .inl rfl

/-- The walk makes directories where nothing is, and nothing else. -/
theorem step_spares {kernel : Kernel} {root : Inode} {realRoot : Place} {options : Options}
    (walk : Walk) : Spares system (step kernel root realRoot options system walk).1 mayTake := by
  rcases step_makes walk with same | ⟨dir, _, queue, _, made, -, answered⟩
  · rw [same]
    exact spares_same system mayTake
  · exact create_spares answered

theorem linkTo_ok (answered : linkTo mover system source destination = .ok after) :
    (∃ inode, system.entries source.dir source.name = some inode ∧
      after = system.withEntry destination.dir destination.name (some inode)) ∧
        system.entries destination.dir destination.name = none := by
  unfold linkTo at answered
  split at answered
  · exact absurd answered nofun
  case h_2 inode named =>
    split at answered
    · exact absurd answered nofun
    case isFalse unseen =>
      split at answered
      · exact absurd answered nofun
      · split at answered
        · exact absurd answered nofun
        · exact ⟨⟨inode, named, (Except.ok.inj answered).symm⟩,
            seen_none (not_isSome_iff_eq_none.mp unseen)⟩

/-- A name taken away. -/
theorem spares_unnamed {located : Located}
    (taken : ∀ inode, mayTake located.dir located.name inode) :
    Spares system (system.withEntry located.dir located.name none) mayTake := by
  refine ⟨fun _ _ kind => kind, fun dir name inode _ named => ?_⟩
  by_cases here : dir = located.dir ∧ name = located.name
  · obtain ⟨rfl, rfl⟩ := here
    exact .inr (taken inode)
  · rw [FileSystem.withEntry_other _ _ here]
    exact .inl named

theorem unlinkAt_spares {located : Located}
    (answered : unlinkAt system located = .ok after)
    (taken : ∀ inode, mayTake located.dir located.name inode) : Spares system after mayTake := by
  unfold unlinkAt at answered
  split at answered
  · exact absurd answered nofun
  · split at answered
    · exact absurd answered nofun
    · obtain rfl := Except.ok.inj answered
      exact spares_unnamed taken

/-- Where the clean-up finds nothing or a directory it removes nothing. -/
theorem rmAt_eq {located : Located} (answered : rmAt system located = .ok after)
    (directory : ∀ there, system.entries located.dir located.name = some there →
      system.kind there = some .directory) : after = system := by
  unfold rmAt at answered
  split at answered
  · exact (Except.ok.inj answered).symm
  case h_2 inode named =>
    rw [if_pos (directory inode named)] at answered
    exact absurd answered nofun

/-- A name taken from one place and given to another. -/
theorem names_moved {before : System} {inode : Inode}
    (same : before.entries = system.entries)
    (apart : ¬(source.dir = destination.dir ∧ source.name = destination.name))
    (own : ∀ inode, ¬(source.dir = destination.dir ∧ source.name = destination.name) →
      mayTake source.dir source.name inode)
    (over_ : ∀ there, system.entries destination.dir destination.name = some there →
      mayTake destination.dir destination.name there) {dir : Inode} {name : Name} {other : Inode}
    (named : system.entries dir name = some other) :
    ((before.withEntry source.dir source.name none).withEntry destination.dir destination.name
      (some inode)).entries dir name = some other ∨ mayTake dir name other := by
  by_cases onto : dir = destination.dir ∧ name = destination.name
  · obtain ⟨rfl, rfl⟩ := onto
    exact .inr (over_ other named)
  · rw [FileSystem.withEntry_other _ _ onto]
    by_cases here : dir = source.dir ∧ name = source.name
    · obtain ⟨rfl, rfl⟩ := here
      exact .inr (own other apart)
    · rw [FileSystem.withEntry_other _ _ here, same]
      exact .inl named

/-- A rename takes the source's name, and the destination's from what it stands for, when it can
be replaced. -/
theorem renameTo_spares (answered : renameTo mover system source destination = .ok after)
    (own : ∀ inode, ¬(source.dir = destination.dir ∧ source.name = destination.name) →
      mayTake source.dir source.name inode)
    (over_ : ∀ inode there, system.entries source.dir source.name = some inode →
      system.entries destination.dir destination.name = some there →
        mayTake destination.dir destination.name there ∨ there = inode ∨
          notOver mover system inode there ≠ none) : Spares system after mayTake := by
  unfold renameTo at answered
  split at answered
  · exact absurd answered nofun
  case h_2 inode named =>
    split at answered
    · exact absurd answered nofun
    · split at answered
      · exact absurd answered nofun
      · split at answered
        case h_1 free =>
          obtain rfl := Except.ok.inj answered
          have apart : ¬(source.dir = destination.dir ∧ source.name = destination.name) := by
            rintro ⟨sameDir, sameName⟩
            rw [← sameDir, ← sameName, named] at free
            exact absurd free (some_ne_none inode)
          refine ⟨fun _ _ had => had, fun dir name other _ found =>
            names_moved rfl apart own (fun there standing => ?_) found⟩
          rw [free] at standing
          exact absurd standing (some_ne_none there).symm
        case h_2 there standing =>
          split at answered
          · rw [← Except.ok.inj answered]
            exact spares_same system mayTake
          case isFalse differs =>
            split at answered
            · exact absurd answered nofun
            case h_2 replaceable =>
              obtain rfl := Except.ok.inj answered
              have apart : ¬(source.dir = destination.dir ∧ source.name = destination.name) := by
                rintro ⟨sameDir, sameName⟩
                rw [← sameDir, ← sameName, named] at standing
                exact differs (some.inj standing).symm
              have mine : mayTake destination.dir destination.name there := by
                rcases over_ inode there named standing with mine | same | refused
                · exact mine
                · exact absurd same differs
                · exact absurd replaceable refused
              refine ⟨fun other kind had => ?_, fun dir name other directory found => ?_⟩
              · rw [FileSystem.withEntry_kind, FileSystem.withEntry_kind,
                  FileSystem.unlinked_kind]
                exact had
              · refine names_moved (FileSystem.unlinked_entries system there) apart own
                  (fun other' found' => ?_) found
                rw [standing] at found'
                rw [← some.inj found']
                exact mine

end

/-! ### A move and its runs -/

section
variable {mover : Mover} {root : Inode} {realRoot : Place} {to_ : List Char}

/-- Before a name is taken back, the source and its new name are different names. -/
def Move.Apart : Move → Prop
  | .unlinking source destination =>
    ¬(source.dir = destination.dir ∧ source.name = destination.name)
  | _ => True

variable {system after : System} {move : Move}

/-- What a state's call leaves. -/
theorem perform_spares {next : Move} (apart : move.Apart)
    (undisturbed : move.undisturbed mover system = true)
    (done : move.perform mover root realRoot to_ system = .ok (after, next)) :
    Spares system after move.mayTake := by
  cases move with
  | locating walk =>
    rw [← (Prod.mk.inj (Except.ok.inj done)).1]
    exact step_spares walk
  | reaching source walk =>
    rw [← (Prod.mk.inj (Except.ok.inj done)).1]
    exact step_spares walk
  | looking source destination =>
    rw [← (Prod.mk.inj (Except.ok.inj done)).1]
    exact spares_same _ _
  | making source destination =>
    obtain ⟨⟨made, inode⟩, answered, same⟩ := Systems.ok_of_map done
    rw [← (Prod.mk.inj same).1]
    exact create_spares answered
  | renamingOnto source destination made =>
    obtain ⟨renamed, answered, same⟩ := Systems.ok_of_map done
    rw [← (Prod.mk.inj same).1]
    refine renameTo_spares answered (fun inode apart => .inl ⟨rfl, rfl, apart⟩)
      fun inode there named standing => ?_
    simp only [Move.undisturbed, named, standing, Bool.or_eq_true, decide_eq_true_eq,
      isSome_iff_ne_none] at undisturbed
    rcases undisturbed with (mine | same) | refused
    · exact .inl (.inr ⟨rfl, rfl, mine⟩)
    · exact .inr (.inl same)
    · exact .inr (.inr refused)
  | clearing source destination made refusal =>
    obtain ⟨cleared, answered, same⟩ := Systems.ok_of_map done
    rw [← (Prod.mk.inj same).1, rmAt_eq answered fun there standing => ?_]
    · exact spares_same _ _
    · simpa only [Move.undisturbed, standing, decide_eq_true_eq] using undisturbed
  | linking source destination =>
    obtain ⟨linked, answered, same⟩ := Systems.ok_of_map done
    obtain ⟨⟨inode, -, rfl⟩, free⟩ := linkTo_ok answered
    rw [← (Prod.mk.inj same).1]
    exact spares_withEntry free _
  | checking source destination =>
    rw [← (Prod.mk.inj (Except.ok.inj done)).1]
    exact spares_same _ _
  | replacing source destination =>
    obtain ⟨renamed, answered, same⟩ := Systems.ok_of_map done
    rw [← (Prod.mk.inj same).1]
    refine renameTo_spares answered (fun inode apart => ⟨rfl, rfl, apart⟩)
      fun inode there named standing => .inr ?_
    simpa only [Move.undisturbed, named, standing, Bool.or_eq_true, decide_eq_true_eq,
      isSome_iff_ne_none] using undisturbed
  | unlinking source destination =>
    obtain ⟨unlinked, answered, same⟩ := Systems.ok_of_map done
    rw [← (Prod.mk.inj same).1]
    exact unlinkAt_spares answered fun inode => ⟨rfl, rfl, apart⟩
  | closing outcome =>
    rw [← (Prod.mk.inj (Except.ok.inj done)).1]
    exact spares_same _ _
  | leaving outcome =>
    rw [← (Prod.mk.inj (Except.ok.inj done)).1]
    exact spares_same _ _
  | ended outcome =>
    rw [← (Prod.mk.inj (Except.ok.inj done)).1]
    exact spares_same _ _

/-- The move is at a folder's destination, which it has made. -/
def Move.onto : Move → Bool
  | .renamingOnto _ _ _ | .clearing _ _ _ _ => true
  | _ => false

/-- A call that makes nothing leaves the file system as it is, but for a clean-up. -/
theorem perform_same {next : Move} (before : move.onto = false)
    (done : move.perform mover root realRoot to_ system = .ok (after, next))
    (idle : move.makes mover system = false) : after = system := by
  have walked : ∀ (options : Options) (walk : Walk), makesOnWay mover system walk = false →
      (step mover.kernel root realRoot options system walk).1 = system := by
    intro options walk none_
    rcases step_makes walk with same | ⟨dir, logical, queue, links, made, rfl, answered⟩
    · exact same
    · unfold makesOnWay at none_
      dsimp only at none_
      rw [answered] at none_
      exact absurd none_.symm Bool.false_ne_true
  cases move with
  | locating walk =>
    rw [← (Prod.mk.inj (Except.ok.inj done)).1]
    exact walked _ walk idle
  | reaching source walk =>
    rw [← (Prod.mk.inj (Except.ok.inj done)).1]
    exact walked _ walk idle
  | clearing => exact absurd before.symm Bool.false_ne_true
  | looking source destination => exact (Prod.mk.inj (Except.ok.inj done)).1.symm
  | checking source destination => exact (Prod.mk.inj (Except.ok.inj done)).1.symm
  | closing outcome => exact (Prod.mk.inj (Except.ok.inj done)).1.symm
  | leaving outcome => exact (Prod.mk.inj (Except.ok.inj done)).1.symm
  | ended outcome => exact (Prod.mk.inj (Except.ok.inj done)).1.symm
  | making => exact absurd idle.symm Bool.false_ne_true
  | renamingOnto => exact absurd idle.symm Bool.false_ne_true
  | linking => exact absurd idle.symm Bool.false_ne_true
  | replacing => exact absurd idle.symm Bool.false_ne_true
  | unlinking => exact absurd idle.symm Bool.false_ne_true

/-- The move has no name to take back, and is at no folder's destination. -/
def Move.Calm (move : Move) : Prop := move.Apart ∧ move.onto = false

theorem located_calm (walk : Walk) : (Move.located to_ walk).Calm := by
  unfold Move.located
  split <;> exact ⟨trivial, rfl⟩

theorem reached_calm (source : Located) (walk : Walk) : (Move.reached source walk).Calm := by
  unfold Move.reached
  split <;> exact ⟨trivial, rfl⟩

/-- A call that fails leaves no name to take back, and leads to no folder's destination. -/
theorem failed_calm (code : String) (move : Move) :
    (move.failed to_ code).Apart ∧ ((move.failed to_ code).Calm ∨ move.onto = true) := by
  have calm {next : Move} (calm : next.Calm) : next.Apart ∧ (next.Calm ∨ move.onto = true) :=
    ⟨calm.1, .inl calm⟩
  cases move with
  | locating walk => exact calm (located_calm _)
  | reaching source walk => exact calm (reached_calm _ _)
  | renamingOnto => exact ⟨trivial, .inr rfl⟩
  | clearing => exact ⟨trivial, .inr rfl⟩
  | making source destination =>
    refine calm ?_
    unfold Move.failed
    dsimp only
    split <;> exact ⟨trivial, rfl⟩
  | linking source destination =>
    refine calm ?_
    unfold Move.failed
    dsimp only
    split
    · exact ⟨trivial, rfl⟩
    · split <;> exact ⟨trivial, rfl⟩
  | _ => exact calm ⟨trivial, rfl⟩

/-- A name is taken back only after it was linked to another one, and the move comes to a folder's
destination only by making it. -/
theorem perform_calm {next : Move}
    (done : move.perform mover root realRoot to_ system = .ok (after, next)) :
    next.Apart ∧ (next.Calm ∨ move.makes mover system = true) := by
  have calm {next : Move} (calm : next.Calm) :
      next.Apart ∧ (next.Calm ∨ move.makes mover system = true) := ⟨calm.1, .inl calm⟩
  cases move with
  | locating walk =>
    rw [← (Prod.mk.inj (Except.ok.inj done)).2]
    exact calm (located_calm _)
  | reaching source walk =>
    rw [← (Prod.mk.inj (Except.ok.inj done)).2]
    exact calm (reached_calm _ _)
  | looking source destination =>
    rw [← (Prod.mk.inj (Except.ok.inj done)).2]
    refine calm ?_
    split
    · exact ⟨trivial, rfl⟩
    · split
      · exact ⟨trivial, rfl⟩
      · unfold Move.looked
        split <;> exact ⟨trivial, rfl⟩
  | clearing =>
    obtain ⟨cleared, -, same⟩ := Systems.ok_of_map done
    rw [← (Prod.mk.inj same).2]
    exact calm ⟨trivial, rfl⟩
  | linking source destination =>
    obtain ⟨linked, answered, same⟩ := Systems.ok_of_map done
    obtain ⟨⟨inode, named, -⟩, free⟩ := linkTo_ok answered
    rw [← (Prod.mk.inj same).2]
    refine ⟨?_, .inr rfl⟩
    rintro ⟨sameDir, sameName⟩
    rw [← sameDir, ← sameName, named] at free
    exact absurd free (some_ne_none inode)
  | checking source destination =>
    rw [← (Prod.mk.inj (Except.ok.inj done)).2]
    refine calm ?_
    split <;> exact ⟨trivial, rfl⟩
  | closing outcome =>
    rw [← (Prod.mk.inj (Except.ok.inj done)).2]
    exact calm ⟨trivial, rfl⟩
  | leaving outcome =>
    rw [← (Prod.mk.inj (Except.ok.inj done)).2]
    exact calm ⟨trivial, rfl⟩
  | ended outcome =>
    rw [← (Prod.mk.inj (Except.ok.inj done)).2]
    exact calm ⟨trivial, rfl⟩
  | _ =>
    obtain ⟨made, -, same⟩ := Systems.ok_of_map done
    rw [← (Prod.mk.inj same).2]
    exact ⟨trivial, .inr rfl⟩

theorem not_calm (onto : move.onto = true) : ¬move.Calm :=
  fun calm => absurd (calm.2.symm.trans onto) Bool.false_ne_true

/-- One step: it is the game's, a call that failed and left everything, or a call that was
answered. -/
theorem moveStep_cases {now next : Moving} {event : MoveEvent}
    (taken : moveStep mover root realRoot to_ now event = some next) :
    (event.own = false ∧ next.move = now.move) ∨
      (next.system = now.system ∧ next.made = now.made ∧
        ∃ code, next.move = now.move.failed to_ code ∧ (event = .fails code ∨ event = .answered ∧
          now.move.perform mover root realRoot to_ now.system = .error code)) ∨
      event = .answered ∧
        now.move.perform mover root realRoot to_ now.system = .ok (next.system, next.move) ∧
          next.made = (now.made || now.move.makes mover now.system) := by
  cases event with
  | game after =>
    obtain rfl := some.inj taken
    exact .inl ⟨rfl, rfl⟩
  | fails code =>
    obtain rfl := some.inj taken
    exact .inr (.inl ⟨rfl, rfl, code, rfl, .inl rfl⟩)
  | answered =>
    unfold moveStep at taken
    dsimp only at taken
    split at taken
    case h_1 after move done =>
      obtain rfl := some.inj taken
      exact .inr (.inr ⟨rfl, done, rfl⟩)
    case h_2 code failed =>
      obtain rfl := some.inj taken
      exact .inr (.inl ⟨rfl, rfl, code, rfl, .inr ⟨rfl, failed⟩⟩)

theorem moveStep_apart {now next : Moving} {event : MoveEvent} (apart : now.move.Apart)
    (taken : moveStep mover root realRoot to_ now event = some next) : next.move.Apart := by
  rcases moveStep_cases taken with ⟨-, same⟩ | ⟨-, -, code, same, -⟩ | ⟨-, done, -⟩
  · rw [same]
    exact apart
  · rw [same]
    exact (failed_calm code now.move).1
  · exact (perform_calm done).1

/-- A step nobody disturbs changes nothing but the move's own. -/
theorem stepSpares_of_undisturbed {now : Moving} {event : MoveEvent} (apart : now.move.Apart)
    (undisturbed : stepUndisturbed mover now event = true) :
    StepSpares mover root realRoot to_ now event := by
  intro own next taken
  rcases moveStep_cases taken with ⟨others, -⟩ | ⟨same, -⟩ | ⟨rfl, done, -⟩
  · rw [own] at others
    exact absurd others.symm Bool.false_ne_true
  · rw [same]
    exact spares_same _ _
  · exact perform_spares apart undisturbed done

theorem meets_stepSpares {now : Moving} {events : List MoveEvent} (apart : now.move.Apart)
    (meets : Systems.Meets (moveStep mover root realRoot to_)
      (fun now event => stepUndisturbed mover now event = true) now events) :
    Systems.Meets (moveStep mover root realRoot to_) (StepSpares mover root realRoot to_)
      now events := by
  induction events generalizing now with
  | nil => trivial
  | cons event events inductionHypothesis =>
    exact ⟨stepSpares_of_undisturbed apart meets.1, fun next taken =>
      inductionHypothesis (moveStep_apart apart taken) (meets.2 next taken)⟩

/-! ### Moves that are refused -/

/-- A walk that can go on is not refused by its next call. -/
theorem step_canGoOn {options : Options} {walk : Walk}
    (goes : walk.canGoOn mover realRoot options system = true) (trouble : Trouble) :
    (step mover.kernel root realRoot options system walk).2 ≠ .ended (.error trouble) := by
  have restarts : ∀ (logical : List Name) (target : List Char) (rest : List Name) (links : Nat),
      (decide (links < maxLinks) && (afterLink logical target realRoot).isOk) = true →
        restart realRoot logical target rest links ≠ .ended (.error trouble) := by
    intro logical target rest links leads
    obtain ⟨few, followed⟩ := Bool.and_eq_true_iff.mp leads
    unfold restart
    rw [if_neg (Nat.not_lt.mpr (of_decide_eq_true few))]
    rcases found : afterLink logical target realRoot with other | parts
    · rw [found] at followed
      exact absurd followed.symm Bool.false_ne_true.symm
    · rintro ⟨⟩
  cases walk with
  | arriving requested =>
    unfold Walk.canGoOn at goes
    unfold step
    dsimp only at goes ⊢
    rcases taken : partsOf requested with other | queue
    · rw [taken] at goes
      exact absurd goes Bool.false_ne_true
    · rintro ⟨⟩
  | opening queue links => rintro ⟨⟩
  | walking dir logical queue links =>
    rcases queue with _ | ⟨name, _ | ⟨next, rest⟩⟩
    · rintro ⟨⟩
    · unfold step
      dsimp only
      split
      · split <;> rintro ⟨⟩
      · rintro ⟨⟩
    · unfold Walk.canGoOn at goes
      unfold step
      dsimp only at goes ⊢
      split
      · rintro ⟨⟩
      · rintro ⟨⟩
      case h_3 unseen =>
        rw [unseen, isSome_none, Bool.or_false] at goes
        rw [if_pos goes]
        rintro ⟨⟩
  | blocked dir logical queue links =>
    unfold Walk.canGoOn at goes
    unfold step
    dsimp only at goes ⊢
    split
    case h_1 target found =>
      rw [found] at goes
      exact restarts logical target queue.tail links goes
    case h_2 other =>
      split at goes
      case h_1 target found => exact absurd found (other target)
      · exact absurd goes Bool.false_ne_true
  | missing dir logical queue links =>
    unfold Walk.canGoOn at goes
    unfold step
    dsimp only at goes ⊢
    split
    · rintro ⟨⟩
    case h_2 code refused =>
      rw [refused] at goes
      rw [if_pos (beq_iff_eq.mp goes)]
      rintro ⟨⟩
  | following dir logical queue links =>
    unfold Walk.canGoOn at goes
    unfold step
    dsimp only at goes ⊢
    split
    case h_1 target found =>
      rw [found] at goes
      exact restarts logical target [] links goes
    case h_2 other =>
      split at goes
      case h_1 target found => exact absurd found (other target)
      · exact absurd goes Bool.false_ne_true
  | ended outcome =>
    rcases outcome with other | located
    · exact absurd goes Bool.false_ne_true
    · rintro ⟨⟩

theorem located_refused {walk : Walk} (goes : ∀ trouble, walk ≠ .ended (.error trouble)) :
    (Move.located to_ walk).refused = false := by
  unfold Move.located
  split
  · rfl
  case h_2 trouble => exact absurd rfl (goes trouble)
  · rfl

theorem reached_refused {source : Located} {walk : Walk}
    (goes : ∀ trouble, walk ≠ .ended (.error trouble)) :
    (Move.reached source walk).refused = false := by
  unfold Move.reached
  split
  · rfl
  case h_2 trouble => exact absurd rfl (goes trouble)
  · rfl

/-- A call that finds no reason to refuse does not refuse. -/
theorem perform_goes {next : Move} (before : move.refused = false)
    (goes : move.canGoOn mover realRoot system = true)
    (done : move.perform mover root realRoot to_ system = .ok (after, next)) :
    next.refused = false := by
  cases move with
  | locating walk =>
    rw [← (Prod.mk.inj (Except.ok.inj done)).2]
    exact located_refused (step_canGoOn goes)
  | reaching source walk =>
    rw [← (Prod.mk.inj (Except.ok.inj done)).2]
    exact reached_refused (step_canGoOn goes)
  | looking source destination =>
    obtain ⟨names, found⟩ := Bool.and_eq_true_iff.mp goes
    obtain ⟨named, onto⟩ := Bool.and_eq_true_iff.mp names
    rw [← (Prod.mk.inj (Except.ok.inj done)).2, if_neg (of_decide_eq_true named),
      if_neg (of_decide_eq_true onto)]
    obtain ⟨what, seen⟩ := isSome_iff_exists.mp found
    rw [seen]
    cases what <;> rfl
  | clearing => exact absurd before.symm Bool.false_ne_true
  | checking source destination =>
    rw [← (Prod.mk.inj (Except.ok.inj done)).2, if_neg]
    · rfl
    · rw [isNone_iff_eq_none.mp goes]
      exact Bool.false_ne_true
  | closing outcome =>
    rw [← (Prod.mk.inj (Except.ok.inj done)).2]
    rcases outcome with refusal | _
    · exact before
    · rfl
  | leaving outcome =>
    rw [← (Prod.mk.inj (Except.ok.inj done)).2]
    rcases outcome with refusal | _
    · exact before
    · rfl
  | ended outcome =>
    rw [← (Prod.mk.inj (Except.ok.inj done)).2]
    exact before
  | _ =>
    obtain ⟨made, -, same⟩ := Systems.ok_of_map done
    rw [← (Prod.mk.inj same).2]
    rfl

/-- A call the file system refuses though it can go on is the link where there are no hard
links. -/
theorem error_goes {code : String} (before : move.refused = false)
    (goes : move.canGoOn mover realRoot system = true)
    (failed : move.perform mover root realRoot to_ system = .error code) :
    (move.failed to_ code).refused = false := by
  have never : ∀ {α β : Type} {answer : Except String α} {f : α → β}, answer.isOk = true →
      answer.map f ≠ .error code := by
    intro α β answer f ok
    rcases answer with other | value
    · exact absurd ok Bool.false_ne_true
    · exact nofun
  cases move with
  | making => exact absurd failed (never goes)
  | renamingOnto => exact absurd failed (never goes)
  | replacing => exact absurd failed (never goes)
  | unlinking => exact absurd failed (never goes)
  | clearing => exact absurd before.symm Bool.false_ne_true
  | linking source destination =>
    unfold Move.canGoOn at goes
    unfold Move.perform at failed
    dsimp only at goes failed
    rcases answer : linkTo mover system source destination with other | after
    · rw [answer] at goes failed
      obtain rfl := Except.error.inj failed
      rw [beq_iff_eq.mp goes]
      rfl
    · rw [answer] at failed
      exact absurd failed nofun
  | _ => exact absurd failed nofun

theorem outlives_goes {code : String} (outlives : move.outlives code = true) :
    (move.failed to_ code).refused = false := by
  cases move with
  | linking source destination =>
    have one := List.contains_iff_mem.mp outlives
    simp only [List.mem_cons, List.not_mem_nil, or_false] at one
    rcases one with rfl | rfl | rfl | rfl <;> rfl
  | ended outcome =>
    rcases outcome with refusal | _
    · exact absurd outlives Bool.false_ne_true
    · rfl
  | _ => exact absurd outlives Bool.false_ne_true

/-- A call that makes something and is answered does not refuse. -/
theorem perform_makes {next : Move} (makes : move.makes mover system = true)
    (done : move.perform mover root realRoot to_ system = .ok (after, next)) :
    next.refused = false := by
  have walked : ∀ (options : Options) (walk : Walk), makesOnWay mover system walk = true →
      ∀ trouble, (step mover.kernel root realRoot options system walk).2 ≠
        .ended (.error trouble) := by
    intro options walk makes trouble
    unfold makesOnWay at makes
    split at makes
    case h_1 dir logical queue links =>
      unfold step
      dsimp only
      split at makes
      case h_1 made answered =>
        rw [answered]
        exact nofun
      · exact absurd makes Bool.false_ne_true
    · exact absurd makes Bool.false_ne_true
  cases move with
  | locating walk =>
    rw [← (Prod.mk.inj (Except.ok.inj done)).2]
    exact located_refused (walked _ walk makes)
  | reaching source walk =>
    rw [← (Prod.mk.inj (Except.ok.inj done)).2]
    exact reached_refused (walked _ walk makes)
  | looking => exact absurd makes Bool.false_ne_true
  | checking => exact absurd makes Bool.false_ne_true
  | clearing => exact absurd makes Bool.false_ne_true
  | closing => exact absurd makes Bool.false_ne_true
  | leaving => exact absurd makes Bool.false_ne_true
  | ended => exact absurd makes Bool.false_ne_true
  | _ =>
    obtain ⟨made, -, same⟩ := Systems.ok_of_map done
    rw [← (Prod.mk.inj same).2]
    rfl

/-- As long as the game leaves it alone, a move that has made nothing has changed nothing, one that
is refused has made nothing, and one at a folder's destination has made that. -/
structure Unchanged (start : System) (now : Moving) : Prop where
  same : now.made = false → now.system = start
  early : now.move.refused = true → now.made = false
  onto : now.move.onto = true → now.made = true

theorem moveStep_unchanged {start : System} {now next : Moving} {event : MoveEvent}
    (unchanged : Unchanged start now)
    (met : stepUnrefused mover realRoot now event = true ∧ event.own = true)
    (taken : moveStep mover root realRoot to_ now event = some next) : Unchanged start next := by
  obtain ⟨unrefused, own⟩ := met
  have going : now.made = true → now.move.refused = false := by
    intro made
    cases refused : now.move.refused with
    | false => rfl
    | true => exact absurd ((unchanged.early refused).symm.trans made) Bool.false_ne_true
  rcases moveStep_cases taken with
    ⟨others, -⟩ | ⟨same, made, code, move, failing⟩ | ⟨rfl, done, made⟩
  · rw [own] at others
    exact absurd others.symm Bool.false_ne_true
  · refine ⟨fun nothing => same.trans (unchanged.same (made.symm.trans nothing)), fun refused => ?_,
      fun onto => ?_⟩
    · by_contra something
      have before := made.symm.trans (Bool.not_eq_false _ ▸ something)
      have goes : (now.move.failed to_ code).refused = false := by
        rcases failing with rfl | ⟨rfl, failed⟩
        · unfold stepUnrefused at unrefused
          dsimp only at unrefused
          rw [before, Bool.not_true, Bool.false_or] at unrefused
          exact outlives_goes unrefused
        · unfold stepUnrefused at unrefused
          dsimp only at unrefused
          rw [before, Bool.not_true, Bool.false_or] at unrefused
          exact error_goes (going before) unrefused failed
      rw [move, goes] at refused
      exact absurd refused Bool.false_ne_true
    · rw [made]
      rw [move] at onto
      exact unchanged.onto ((failed_calm code now.move).2.resolve_left (not_calm onto))
  · refine ⟨fun nothing => ?_, fun refused => ?_, fun onto => ?_⟩
    · obtain ⟨before, idle⟩ := Bool.or_eq_false_iff.mp (made.symm.trans nothing)
      have early : now.move.onto = false := by
        cases onto : now.move.onto with
        | false => rfl
        | true => exact absurd (before.symm.trans (unchanged.onto onto)) Bool.false_ne_true
      exact (perform_same early done idle).trans (unchanged.same before)
    · rw [made]
      cases before : now.made with
      | true =>
        unfold stepUnrefused at unrefused
        dsimp only at unrefused
        rw [before, Bool.not_true, Bool.false_or] at unrefused
        rw [perform_goes (going before) unrefused done] at refused
        exact absurd refused Bool.false_ne_true
      | false =>
        cases makes : now.move.makes mover now.system with
        | false => rfl
        | true =>
          rw [perform_makes makes done] at refused
          exact absurd refused Bool.false_ne_true
    · rw [made, (perform_calm done).2.resolve_left (not_calm onto), Bool.or_true]

end

/-- A move and what it does no harm to. In every run whose calls nobody disturbs, with whatever else
the game does between them and whatever fails, each call of the move leaves everything that was
there, but for the source's own name and the directory the move made. And in every run the game
leaves alone in which, once the move has made something, no call fails and none finds a reason to
refuse, a move that has thrown has left the file system as it was. -/
theorem moveBeneath_harmless (mover : Mover) (root : Inode) (realRoot : Place)
    (start : System) (from_ to_ : List Char) (events : List MoveEvent) :
    (Systems.Meets (moveStep mover root realRoot to_)
        (fun now event => stepUndisturbed mover now event = true) (moveBeneath start from_) events →
      Systems.Meets (moveStep mover root realRoot to_) (StepSpares mover root realRoot to_)
        (moveBeneath start from_) events) ∧
      ((∀ event ∈ events, event.own = true) →
        Systems.Meets (moveStep mover root realRoot to_)
            (fun now event => stepUnrefused mover realRoot now event = true)
            (moveBeneath start from_) events →
          Systems.Along (moveStep mover root realRoot to_)
            (fun now => now.move.threw = true → now.system = start) (moveBeneath start from_)
            events) := by
  refine ⟨meets_stepSpares trivial, fun own meets => ?_⟩
  have begun : Unchanged start (moveBeneath start from_) :=
    ⟨fun _ => rfl, fun _ => rfl, fun onto => absurd onto Bool.false_ne_true⟩
  refine (Systems.along_of_meets (fun now event next unchanged met taken =>
    moveStep_unchanged unchanged met taken) begun (meets.with_mem own)).mono ?_
  intro now unchanged threw
  refine unchanged.same (unchanged.early ?_)
  unfold Move.threw at threw
  split at threw
  case h_1 refusal ended =>
    rw [ended]
    rfl
  case h_2 => exact absurd threw Bool.false_ne_true

namespace Sample

/-- The sample kernel with a rename that takes directories as empty and apart as they are. -/
noncomputable def mover : Mover where
  kernel := kernel
  bare system inode := @decide (system.Empty inode) (Classical.dec _)
  isBare system inode := @decide_eq_true_iff (system.Empty inode) (Classical.dec _)
  within system inode directory := @decide (system.Below inode directory) (Classical.dec _)
  isWithin system inode directory :=
    @decide_eq_true_iff (system.Below inode directory) (Classical.dec _)

/-- The game makes a file beside the folder that is moved and the one made for it. -/
def beside : System :=
  ((system.withInode 7 .directory).withEntry 0 "g".toList (some 7)).withInode 2 .file |>.withEntry
    0 "f".toList (some 2)

/-- A folder is on its way to the directory made for it. -/
def readied : List MoveEvent := List.replicate 8 .answered

/-- The rename fails, and the clean-up finds the directory that was made. -/
def cleaned : List MoveEvent :=
  readied ++ .game beside :: .fails "EIO" :: List.replicate 4 .answered

/-- What is looked for is not there. -/
def sought : List MoveEvent := List.replicate 9 .answered

/-- Nothing lies below the folder. -/
theorem beside_within : mover.within beside 1 0 = false := by
  refine Bool.eq_false_iff.mpr fun within => ?_
  have alone : ∀ inode, beside.Below 1 inode → inode = 1 := by
    intro inode below
    induction below with
    | refl => rfl
    | tail _ child same =>
      obtain ⟨⟨name, named⟩, _⟩ := child
      rw [same] at named
      exact absurd named nofun
  exact absurd (alone 0 ((mover.isWithin beside 1 0).mp within)) (by decide)

/-- The directory that was made is empty. -/
theorem beside_bare : mover.bare beside 7 = true :=
  (mover.isBare beside 7).mpr fun _ => rfl

/-- The folder takes its new name. -/
theorem beside_renames :
    ∃ after, renameTo mover beside ⟨0, "a".toList, []⟩ ⟨0, "g".toList, []⟩ = .ok after ∧
      after.entries 0 "g".toList = some 1 := by
  have replaces : notOver mover beside 1 7 = none := by
    unfold notOver
    rw [beside_bare]
    rfl
  have source : beside.entries 0 "a".toList = some 1 := by decide
  have destination : beside.entries 0 "g".toList = some 7 := by decide
  unfold renameTo
  simp only [source, destination, replaces, beside_within, Bool.false_eq_true, and_false, if_false,
    show beside.removed 0 = false from rfl, show (7 : Inode) ≠ 1 by decide]
  exact ⟨_, rfl, by rw [FileSystem.withEntry_self]⟩

end Sample

/-- A folder moved beside a file the game makes meanwhile, the same with a rename that fails, and a
move of what is not there. -/
theorem moveBeneath_harmless_folder :
    (Systems.Meets (moveStep Sample.mover 0 Sample.realRoot "g".toList)
        (StepSpares Sample.mover 0 Sample.realRoot "g".toList) (moveBeneath Sample.system "a".toList)
        (Sample.readied ++ [.game Sample.beside, .answered]) ∧
      (∃ last, Systems.run (moveStep Sample.mover 0 Sample.realRoot "g".toList)
          (moveBeneath Sample.system "a".toList)
          (Sample.readied ++ [.game Sample.beside, .answered]) = some last ∧
        last.system.entries 0 "g".toList = some 1) ∧
      Systems.Meets (moveStep Sample.mover 0 Sample.realRoot "g".toList)
        (StepSpares Sample.mover 0 Sample.realRoot "g".toList)
        (moveBeneath Sample.system "a".toList) Sample.cleaned) ∧
      ∃ last, Systems.run (moveStep Sample.mover 0 Sample.realRoot "g".toList)
          (moveBeneath Sample.system "x".toList) Sample.sought = some last ∧
        last.move.threw = true ∧ last.system = Sample.system := by
  have folder := moveBeneath_harmless Sample.mover 0 Sample.realRoot Sample.system "a".toList
    "g".toList
  have nothing := moveBeneath_harmless Sample.mover 0 Sample.realRoot Sample.system "x".toList
    "g".toList Sample.sought
  have found : (Systems.run (moveStep Sample.mover 0 Sample.realRoot "g".toList)
      (moveBeneath Sample.system "a".toList) Sample.readied).map (fun now => now.move) =
        some (.renamingOnto ⟨0, "a".toList, []⟩ ⟨0, "g".toList, []⟩ 7) := by
    decide +kernel
  obtain ⟨middle, ready, move⟩ := map_eq_some_iff.mp found
  have undisturbed : middle.move.undisturbed Sample.mover Sample.beside = true := by
    rw [move]
    decide +kernel
  obtain ⟨after, renamed, named⟩ := Sample.beside_renames
  have taken : moveStep Sample.mover 0 Sample.realRoot "g".toList
      ⟨Sample.beside, middle.move, middle.made⟩ .answered =
        some ⟨after, .closing (.ok ()), middle.made || true⟩ := by
    rw [move]
    unfold moveStep Move.perform
    dsimp only
    rw [renamed]
    rfl
  refine ⟨⟨(folder (Sample.readied ++ [.game Sample.beside, .answered])).1 (Systems.Meets.append
    (by decide +kernel) ready ⟨rfl, fun next made => ?_⟩),
    ⟨⟨after, .closing (.ok ()), middle.made || true⟩, ?_, named⟩,
    (folder Sample.cleaned).1 (by decide +kernel)⟩, ?_⟩
  · obtain rfl := some.inj made
    exact ⟨undisturbed, fun _ _ => trivial⟩
  · rw [Systems.run_append, ready]
    unfold Systems.run
    dsimp only [Option.bind]
    exact bind_eq_some_iff.mpr ⟨_, taken, rfl⟩
  have threw : (Systems.run (moveStep Sample.mover 0 Sample.realRoot "g".toList)
      (moveBeneath Sample.system "x".toList) Sample.sought).map (fun now => now.move.threw) =
      some true := by
    decide +kernel
  obtain ⟨last, ends, thrown⟩ := map_eq_some_iff.mp threw
  exact ⟨last, ends, thrown, Systems.along_last
    (nothing.2 (by decide +kernel) (by decide +kernel)) ends thrown⟩

/-- A move of what is not there to a name in a folder that is missing throws, and leaves the
folder. -/
theorem refused_move_leaves_folder :
    ¬ ∀ (mover : Mover) (root : Inode) (realRoot : Place) (start : System)
        (from_ to_ : List Char) (events : List MoveEvent), (∀ event ∈ events, event.own = true) →
      Systems.Along (moveStep mover root realRoot to_)
        (fun now => now.move.threw = true → now.system = start) (moveBeneath start from_)
        events := by
  intro always
  have along := always Sample.mover 0 Sample.realRoot Sample.system "x".toList "new/y".toList
    (List.replicate 12 .answered)
    fun event member => by
      rw [List.eq_of_mem_replicate member]
      rfl
  have ended : (Systems.run (moveStep Sample.mover 0 Sample.realRoot "new/y".toList)
      (moveBeneath Sample.system "x".toList) (List.replicate 12 .answered)).map
        (fun now => (now.move.threw, now.system.entries 0 "new".toList)) =
      some (true, some 7) := by
    decide +kernel
  obtain ⟨last, run, seen⟩ := map_eq_some_iff.mp ended
  have same := Systems.along_last along run (Prod.mk.inj seen).1
  have left := (Prod.mk.inj seen).2
  rw [same] at left
  exact absurd left (by decide)

end Geeboard.Beneath
